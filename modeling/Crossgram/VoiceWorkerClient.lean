import Crossgram.VoiceIpc
import Crossgram.Lib.Utf16
/-!
# VoiceWorkerClient — the bridge's end of the voice worker (packages/bridge/src/voice/voice-worker-client.ts)

The requests as the bridge builds them and the responses as it reads them.  A string is its UTF-16 code units, a `bigint` an
integer, a `Long` its two words.
-/
namespace Crossgram
namespace VoiceIpc
namespace Client

inductive VoiceCallError where
  | unavailable

def VOICE_WORKER_PROTOCOL_VERSION : UInt8 := 3
def VOICE_WORKER_MAX_FRAME_BYTES : Nat := 65536
def VOICE_WORKER_MAX_SIGNAL_BYTES : Nat := 32768
def VOICE_WORKER_PCM_FRAME_BYTES : Nat := 1920
def MAX_U64 : Int := 0xffffffffffffffff

abbrev Text := List UInt16

inductive Number where
  | integer (value : Int)
  | other

def Number.isSafeInteger : Number → Bool
  | .integer value => decide (-9007199254740991 ≤ value) && decide (value ≤ 9007199254740991)
  | .other         => false

/-- `Number.isSafeInteger(value) && value >= low && value <= high` -/
def Number.isWithin (low high : Int) : Number → Bool
  | .integer value => (Number.integer value).isSafeInteger && decide (low ≤ value) && decide (value ≤ high)
  | .other         => false

def Number.toNat : Number → Nat
  | .integer value => value.toNat
  | .other         => 0

structure Long where
  low : Int32
  high : Int32
  unsigned : Bool

def Long.fromBits (low high : Int32) (unsigned : Bool) : Long := { low, high, unsigned }

/-- The number that `toString` prints. -/
def Long.toBigInt (value : Long) : Int :=
  (if value.unsigned then (value.high.toUInt32.toNat : Int) else value.high.toInt) * 4294967296 + value.low.toUInt32.toNat

inductive VoiceWorkerEndpointKind where
  | inet
  | lan
  | udpRelay
  | tcpRelay

structure VoiceWorkerEndpoint where
  id : Long
  ipv4 : Text
  ipv6 : Text
  port : Number
  kind : VoiceWorkerEndpointKind
  peerTag : List UInt8

structure VoiceWorkerRtcServer where
  id : Number
  host : Text
  port : Number
  username : Text
  password : Text
  turn : Bool
  tcp : Bool

structure VoiceWorkerMediaStartConfig where
  initializationTimeoutMs : Number
  receiveTimeoutMs : Number
  enableP2p : Bool
  allowTcp : Bool
  protocolV1 : Bool
  enableAec : Bool
  enableNs : Bool
  enableAgc : Bool
  endpoints : List VoiceWorkerEndpoint
  rtcServers : Option (List VoiceWorkerRtcServer)

inductive VoiceWorkerIpcRequest where
  | prepareCaller (callId : Int)
  | prepareRecipient (callId : Int) (gAHash : List UInt8)
  | completeCaller (callId : Int) (gB : List UInt8) (config : VoiceWorkerMediaStartConfig)
  | completeRecipient (callId : Int) (gA : List UInt8) (expectedFingerprint : Long) (config : VoiceWorkerMediaStartConfig)
  | signal (callId requestId : Int) (signal : List UInt8)
  | hangup (callId : Int)
  | attachMedia (callId requestId : Int)
  | sendPcm (callId : Int) (capability frame : List UInt8)
  | receivePcm (callId : Int) (capability : List UInt8)
  | closeMedia (callId : Int) (capability : List UInt8)
  | pollEvent (callId : Int)
  | ackEvent (callId eventId : Int)

inductive VoiceWorkerEvent where
  | outboundSignal (data : List UInt8)
  | nativeError

inductive VoiceWorkerIpcResponse where
  | callerPrepared (gAHash : List UInt8)
  | recipientPrepared (gB : List UInt8)
  | callerCompleted (gA : List UInt8) (fingerprint : Long)
  | recipientCompleted (fingerprint : Long)
  | signalForwarded (requestId : Int)
  | hungUp
  | mediaAttached (requestId : Int) (capability : List UInt8)
  | pcmSent
  | pcmReceived (frame : List UInt8)
  | pcmPending
  | mediaClosed
  | event (eventId : Int) (event : VoiceWorkerEvent)
  | eventPending
  | eventAcknowledged (eventId : Int)
  | error (errorCode : Nat)

/-! ## What is sent -/

/-- `Buffer.from(value, 'utf8')` -/
def utf8 (value : Text) : List UInt8 := (Utf16.scalars value).flatMap String.utf8EncodeChar

def fixedBytes (value : List UInt8) (length : Nat) : Except VoiceCallError (List UInt8) :=
  if value.length ≠ length then .error .unavailable else .ok value

def u16 (value : Nat) : Except VoiceCallError (List UInt8) :=
  if value > 0xffff then .error .unavailable else .ok (Endian.big 2 value)

def u64 (value : Int) : Except VoiceCallError (List UInt8) :=
  if value < 1 ∨ value > MAX_U64 then .error .unavailable else .ok (Endian.big 8 value.toNat)

/-- `writeInt32LE` -/
def int32LE (value : Int32) : List UInt8 := (Endian.big 4 value.toUInt32.toNat).reverse

def i64le (value : Long) : List UInt8 := int32LE value.low ++ int32LE value.high

def i64 (value : Long) : List UInt8 := Endian.big 8 (value.toBigInt % 18446744073709551616).toNat

def boundedString (value : Text) : Except VoiceCallError (List UInt8) :=
  let bytes := utf8 value
  if bytes.length > 255 then .error .unavailable else .ok (Endian.big 2 bytes.length ++ bytes)

def frame (payload : List UInt8) : Except VoiceCallError (List UInt8) :=
  if payload.length < 2 ∨ payload.length > VOICE_WORKER_MAX_FRAME_BYTES then .error .unavailable
  else .ok (Endian.big 4 payload.length ++ payload)

def cloneEndpoint (endpoint : VoiceWorkerEndpoint) : Except VoiceCallError VoiceWorkerEndpoint :=
  if !endpoint.port.isWithin 1 65535
      || (endpoint.ipv4.isEmpty && endpoint.ipv6.isEmpty)
      || endpoint.ipv4.contains 0 || endpoint.ipv6.contains 0
      || decide ((utf8 endpoint.ipv4).length > 255) || decide ((utf8 endpoint.ipv6).length > 255)
      || endpoint.peerTag.length != 16 then .error .unavailable
  else .ok { endpoint with id := Long.fromBits endpoint.id.low endpoint.id.high false }

def cloneRtcServer (server : VoiceWorkerRtcServer) : Except VoiceCallError VoiceWorkerRtcServer :=
  if !server.id.isWithin 1 255
      || server.host.isEmpty || server.host.contains 0
      || !server.port.isWithin 1 65535
      || server.username.contains 0
      || server.password.contains 0
      || decide ((utf8 server.host).length > 255)
      || decide ((utf8 server.username).length > 255)
      || decide ((utf8 server.password).length > 255)
      || (server.turn && (server.username.isEmpty || server.password.isEmpty))
      || (!server.turn && (!server.username.isEmpty || !server.password.isEmpty)) then .error .unavailable
  else .ok server

def cloneMediaStartConfig (config : VoiceWorkerMediaStartConfig) : Except VoiceCallError VoiceWorkerMediaStartConfig :=
  if !config.initializationTimeoutMs.isWithin 1 0xffffffff
      || !config.receiveTimeoutMs.isWithin 1 0xffffffff
      || decide (config.endpoints.length > 16)
      || config.rtcServers.any (fun servers => decide (servers.length > 16))
      || (config.endpoints.isEmpty && (config.rtcServers.getD []).isEmpty && !config.enableP2p) then .error .unavailable
  else do
    let endpoints ← config.endpoints.mapM cloneEndpoint
    let rtcServers ← (config.rtcServers.getD []).mapM cloneRtcServer
    pure { config with endpoints, rtcServers := some rtcServers }

def kindByte : VoiceWorkerEndpointKind → UInt8
  | .inet     => 0
  | .lan      => 1
  | .udpRelay => 2
  | .tcpRelay => 3

def endpointBytes (endpoint : VoiceWorkerEndpoint) : Except VoiceCallError (List UInt8) := do
  let peerTag ← fixedBytes endpoint.peerTag 16
  let ipv4 ← boundedString endpoint.ipv4
  let ipv6 ← boundedString endpoint.ipv6
  pure (i64 endpoint.id ++ Endian.big 2 endpoint.port.toNat ++ [kindByte endpoint.kind] ++ peerTag ++ ipv4 ++ ipv6)

def rtcServerBytes (server : VoiceWorkerRtcServer) : Except VoiceCallError (List UInt8) := do
  let host ← boundedString server.host
  let username ← boundedString server.username
  let password ← boundedString server.password
  pure ([UInt8.ofNat server.id.toNat] ++ Endian.big 2 server.port.toNat ++
    [UInt8.ofNat (server.turn.toNat ||| server.tcp.toNat <<< 1)] ++ host ++ username ++ password)

def mediaStartConfig (config : VoiceWorkerMediaStartConfig) (isOutgoing : Bool) : Except VoiceCallError (List UInt8) := do
  let normalized ← cloneMediaStartConfig config
  let flags := normalized.enableP2p.toNat ||| normalized.allowTcp.toNat <<< 1 ||| normalized.protocolV1.toNat <<< 2
    ||| normalized.enableAec.toNat <<< 3 ||| normalized.enableNs.toNat <<< 4 ||| normalized.enableAgc.toNat <<< 5
  let header := [UInt8.ofNat isOutgoing.toNat] ++ Endian.big 4 normalized.initializationTimeoutMs.toNat ++
    Endian.big 4 normalized.receiveTimeoutMs.toNat ++ [UInt8.ofNat flags] ++ [UInt8.ofNat normalized.endpoints.length] ++
    [UInt8.ofNat (normalized.rtcServers.getD []).length]
  let endpoints ← normalized.endpoints.mapM endpointBytes
  let rtcServers ← (normalized.rtcServers.getD []).mapM rtcServerBytes
  pure (header ++ endpoints.flatten ++ rtcServers.flatten)

def VoiceWorkerIpcRequest.tag : VoiceWorkerIpcRequest → UInt8
  | .prepareCaller ..     => 0x01
  | .prepareRecipient ..  => 0x02
  | .completeCaller ..    => 0x03
  | .completeRecipient .. => 0x04
  | .signal ..            => 0x05
  | .hangup ..            => 0x06
  | .attachMedia ..       => 0x07
  | .sendPcm ..           => 0x08
  | .receivePcm ..        => 0x09
  | .closeMedia ..        => 0x0a
  | .pollEvent ..         => 0x0b
  | .ackEvent ..          => 0x0c

def VoiceWorkerIpcRequest.callId : VoiceWorkerIpcRequest → Int
  | .prepareCaller callId | .prepareRecipient callId _ | .completeCaller callId _ _ | .completeRecipient callId _ _ _
  | .signal callId _ _ | .hangup callId | .attachMedia callId _ | .sendPcm callId _ _ | .receivePcm callId _
  | .closeMedia callId _ | .pollEvent callId | .ackEvent callId _ => callId

/-- What the `switch` of the tag pushes. -/
def fieldBytes : VoiceWorkerIpcRequest → Except VoiceCallError (List UInt8)
  | .prepareRecipient _ gAHash => fixedBytes gAHash GA_HASH_BYTES
  | .completeCaller _ gB config => do
    let gB ← fixedBytes gB DH_PUBLIC_BYTES
    let config ← mediaStartConfig config true
    pure (gB ++ config)
  | .completeRecipient _ gA expectedFingerprint config => do
    let gA ← fixedBytes gA DH_PUBLIC_BYTES
    let config ← mediaStartConfig config false
    pure (gA ++ i64le expectedFingerprint ++ config)
  | .signal _ requestId signal =>
    if signal.length > VOICE_WORKER_MAX_SIGNAL_BYTES then .error .unavailable
    else do
      let requestId ← u64 requestId
      let length ← u16 signal.length
      pure (requestId ++ length ++ signal)
  | .attachMedia _ requestId => u64 requestId
  | .sendPcm _ capability frame => do
    let capability ← fixedBytes capability PCM_CAPABILITY_BYTES
    let frame ← fixedBytes frame VOICE_WORKER_PCM_FRAME_BYTES
    pure (capability ++ frame)
  | .receivePcm _ capability | .closeMedia _ capability => fixedBytes capability PCM_CAPABILITY_BYTES
  | .ackEvent _ eventId => u64 eventId
  | .prepareCaller _ | .hangup _ | .pollEvent _ => pure []

def encodeVoiceWorkerRequest (request : VoiceWorkerIpcRequest) : Except VoiceCallError (List UInt8) := do
  let callId ← u64 request.callId
  let fields ← fieldBytes request
  frame ([VOICE_WORKER_PROTOCOL_VERSION, request.tag] ++ callId ++ fields)

/-! ## What is received -/

abbrev ResponseReader := Readers.Reader VoiceCallError

def take (length : Nat) : ResponseReader (List UInt8) := Readers.take .unavailable length

def readU64 (value : List UInt8) : Int := Endian.value value

/-- `readInt32LE` -/
def readInt32LE (value : List UInt8) : Int32 := (UInt32.ofNat (Endian.value value.reverse)).toInt32

def readI64le (value : List UInt8) : Long :=
  Long.fromBits (readInt32LE (value.take 4)) (readInt32LE (value.drop 4)) false

def takeU16Bytes : ResponseReader (List UInt8) := do
  let header ← take 2
  let length := Endian.value header
  if length > VOICE_WORKER_MAX_SIGNAL_BYTES then throw .unavailable else take length

def takeByte : ResponseReader UInt8 := do
  let bytes ← take 1
  pure (bytes.headD 0)

/-- The cases of `switch (tag)`. -/
def readResponse (tag : UInt8) : ResponseReader VoiceWorkerIpcResponse :=
  match tag with
  | 0x81 => do
    let gAHash ← take GA_HASH_BYTES
    pure (.callerPrepared gAHash)
  | 0x82 => do
    let gB ← take DH_PUBLIC_BYTES
    pure (.recipientPrepared gB)
  | 0x83 => do
    let gA ← take DH_PUBLIC_BYTES
    let fingerprint ← take 8
    pure (.callerCompleted gA (readI64le fingerprint))
  | 0x84 => do
    let fingerprint ← take 8
    pure (.recipientCompleted (readI64le fingerprint))
  | 0x85 => do
    let requestId ← take 8
    pure (.signalForwarded (readU64 requestId))
  | 0x86 => pure .hungUp
  | 0x87 => do
    let requestId ← take 8
    let capability ← take PCM_CAPABILITY_BYTES
    pure (.mediaAttached (readU64 requestId) capability)
  | 0x88 => pure .pcmSent
  | 0x89 => do
    let frame ← take VOICE_WORKER_PCM_FRAME_BYTES
    pure (.pcmReceived frame)
  | 0x8a => pure .pcmPending
  | 0x8b => pure .mediaClosed
  | 0x8c => do
    let eventId ← take 8
    let kind ← takeByte
    if kind = 1 then do
      let data ← takeU16Bytes
      pure (.event (readU64 eventId) (.outboundSignal data))
    else if kind = 2 then pure (.event (readU64 eventId) .nativeError)
    else throw .unavailable
  | 0x8d => pure .eventPending
  | 0x8e => do
    let eventId ← take 8
    pure (.eventAcknowledged (readU64 eventId))
  | 0xff => do
    let errorCode ← takeByte
    if errorCode.toNat < 1 ∨ errorCode.toNat > 5 then throw .unavailable else pure (.error errorCode.toNat)
  | _ => throw .unavailable

def decodeVoiceWorkerResponse (payload : List UInt8) : Except VoiceCallError VoiceWorkerIpcResponse :=
  if payload.length < 2 ∨ payload.length > VOICE_WORKER_MAX_FRAME_BYTES then .error .unavailable
  else match payload with
    | version :: tag :: input =>
      if version ≠ VOICE_WORKER_PROTOCOL_VERSION then .error .unavailable
      else Readers.all .unavailable (readResponse tag) input
    | _ => .error .unavailable

end Client
end VoiceIpc
end Crossgram
