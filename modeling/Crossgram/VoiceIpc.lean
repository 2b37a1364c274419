import Crossgram.Lib.Results
import Crossgram.VoiceIpcPayload
/-!
# VoiceIpc — the requests and responses of the voice worker (packages/voice-worker/src/ipc.rs)

A payload is the protocol version, a tag and the fields of the tag; a frame is the length of its payload before it.  The
requests and responses of the feature `test-fake` are left out.
-/
namespace Crossgram
namespace VoiceIpc

inductive EndpointKind where
  | inet
  | lan
  | udpRelay
  | tcpRelay
deriving DecidableEq

structure MediaEndpoint where
  id : Int64
  ipv4 : String
  ipv6 : String
  port : UInt16
  kind : EndpointKind
  peerTag : FixedBytes 16
deriving DecidableEq

structure RtcServer where
  id : UInt8
  host : String
  port : UInt16
  username : String
  password : String
  isTurn : Bool
  isTcp : Bool
deriving DecidableEq

structure MediaStartConfig where
  isOutgoing : Bool
  initializationTimeoutMs : UInt32
  receiveTimeoutMs : UInt32
  enableP2p : Bool
  allowTcp : Bool
  protocolV1 : Bool
  enableAec : Bool
  enableNs : Bool
  enableAgc : Bool
  endpoints : List MediaEndpoint
  rtcServers : List RtcServer
deriving DecidableEq

def containsNul (text : String) : Bool := text.toList.contains (Char.ofNat 0)

/-- The endpoints that `validate` does not let pass. -/
def MediaEndpoint.isInvalid (endpoint : MediaEndpoint) : Bool :=
  endpoint.port == 0
    || decide ((asBytes endpoint.ipv4).length > MAX_HOST_BYTES)
    || decide ((asBytes endpoint.ipv6).length > MAX_HOST_BYTES)
    || containsNul endpoint.ipv4
    || containsNul endpoint.ipv6
    || (endpoint.ipv4.toList.isEmpty && endpoint.ipv6.toList.isEmpty)

/-- The servers that `validate` does not let pass. -/
def RtcServer.isInvalid (server : RtcServer) : Bool :=
  server.id == 0
    || server.port == 0
    || server.host.toList.isEmpty
    || decide ((asBytes server.host).length > MAX_HOST_BYTES)
    || decide ((asBytes server.username).length > MAX_HOST_BYTES)
    || decide ((asBytes server.password).length > MAX_HOST_BYTES)
    || containsNul server.host
    || containsNul server.username
    || containsNul server.password
    || (server.isTurn && (server.username.toList.isEmpty || server.password.toList.isEmpty))
    || (!server.isTurn && (!server.username.toList.isEmpty || !server.password.toList.isEmpty))
    || (server.isTcp && !server.isTurn)

def MediaStartConfig.validate (config : MediaStartConfig) : Except IpcError Unit :=
  if config.initializationTimeoutMs == 0
      || config.receiveTimeoutMs == 0
      || (config.endpoints.isEmpty && config.rtcServers.isEmpty && !config.enableP2p)
      || decide (config.endpoints.length > MAX_ENDPOINTS)
      || decide (config.rtcServers.length > MAX_RTC_SERVERS) then
    .error .malformed
  else if config.endpoints.any MediaEndpoint.isInvalid then
    .error .malformed
  else if config.rtcServers.any RtcServer.isInvalid then
    .error .malformed
  else
    .ok ()

inductive Request where
  | prepareCaller (callId : UInt64)
  | prepareRecipient (callId : UInt64) (gaHash : FixedBytes GA_HASH_BYTES)
  | completeCaller (callId : UInt64) (gb : FixedBytes DH_PUBLIC_BYTES) (config : MediaStartConfig)
  | completeRecipient (callId : UInt64) (ga : FixedBytes DH_PUBLIC_BYTES) (expectedFingerprint : Int64)
      (config : MediaStartConfig)
  | signal (callId requestId : UInt64) (signal : List UInt8)
  | hangup (callId : UInt64)
  | attachMedia (callId requestId : UInt64)
  | sendPcm (callId : UInt64) (capability : FixedBytes PCM_CAPABILITY_BYTES) (frame : FixedBytes PCM_FRAME_BYTES)
  | receivePcm (callId : UInt64) (capability : FixedBytes PCM_CAPABILITY_BYTES)
  | closeMedia (callId : UInt64) (capability : FixedBytes PCM_CAPABILITY_BYTES)
  | pollEvent (callId : UInt64)
  | ackEvent (callId eventId : UInt64)
deriving DecidableEq

inductive WorkerEvent where
  | outboundSignal (signal : List UInt8)
  | nativeError
deriving DecidableEq

inductive ErrorCode where
  | invalidRequest
  | busy
  | invalidState
  | crypto
  | mediaUnavailable
deriving DecidableEq

inductive Response where
  | callerPrepared (gaHash : FixedBytes GA_HASH_BYTES)
  | recipientPrepared (gb : FixedBytes DH_PUBLIC_BYTES)
  | callerCompleted (ga : FixedBytes DH_PUBLIC_BYTES) (fingerprint : Int64)
  | recipientCompleted (fingerprint : Int64)
  | signalForwarded (requestId : UInt64)
  | hungUp
  | mediaAttached (requestId : UInt64) (capability : FixedBytes PCM_CAPABILITY_BYTES)
  | pcmSent
  | pcmReceived (frame : FixedBytes PCM_FRAME_BYTES)
  | pcmPending
  | mediaClosed
  | event (eventId : UInt64) (event : WorkerEvent)
  | eventPending
  | eventAcknowledged (eventId : UInt64)
  | error (code : ErrorCode)
deriving DecidableEq

/-! ## What is written -/

namespace PayloadWriter

/-- `kind as u8` -/
def endpointKind : EndpointKind → UInt8
  | .inet     => 0
  | .lan      => 1
  | .udpRelay => 2
  | .tcpRelay => 3

/-- `code as u8` -/
def errorCode : ErrorCode → UInt8
  | .invalidRequest   => 1
  | .busy             => 2
  | .invalidState     => 3
  | .crypto           => 4
  | .mediaUnavailable => 5

def configFlags (enableP2p allowTcp protocolV1 enableAec enableNs enableAgc : Bool) : UInt8 :=
  enableP2p.toUInt8 ||| allowTcp.toUInt8 <<< 1 ||| protocolV1.toUInt8 <<< 2 ||| enableAec.toUInt8 <<< 3
    ||| enableNs.toUInt8 <<< 4 ||| enableAgc.toUInt8 <<< 5

def serverFlags (isTurn isTcp : Bool) : UInt8 := isTurn.toUInt8 ||| isTcp.toUInt8 <<< 1

def endpoint (endpoint : MediaEndpoint) : Except IpcError (List UInt8) := do
  let ipv4 ← string endpoint.ipv4
  let ipv6 ← string endpoint.ipv6
  pure (i64 endpoint.id ++ (u16 endpoint.port ++ (u8 (endpointKind endpoint.kind) ++ (array endpoint.peerTag ++
    (ipv4 ++ ipv6)))))

def rtcServer (server : RtcServer) : Except IpcError (List UInt8) := do
  let host ← string server.host
  let username ← string server.username
  let password ← string server.password
  pure (u8 server.id ++ (u16 server.port ++ (u8 (serverFlags server.isTurn server.isTcp) ++
    (host ++ (username ++ password)))))

def each {α : Type} (write : α → Except IpcError (List UInt8)) : List α → Except IpcError (List UInt8)
  | []      => pure []
  | a :: as => do
    let first ← write a
    let rest ← each write as
    pure (first ++ rest)

/-- `u8::try_from(length)` -/
def count (length : Nat) : Except IpcError (List UInt8) :=
  if length < 256 then .ok (u8 (UInt8.ofNat length)) else .error .malformed

def mediaStartConfig (config : MediaStartConfig) : Except IpcError (List UInt8) := do
  config.validate
  let endpointCount ← count config.endpoints.length
  let rtcServerCount ← count config.rtcServers.length
  let endpoints ← each endpoint config.endpoints
  let rtcServers ← each rtcServer config.rtcServers
  pure (u8 config.isOutgoing.toUInt8 ++ (u32 config.initializationTimeoutMs ++ (u32 config.receiveTimeoutMs ++
    (u8 (configFlags config.enableP2p config.allowTcp config.protocolV1 config.enableAec config.enableNs
      config.enableAgc) ++
    (endpointCount ++ (rtcServerCount ++ (endpoints ++ rtcServers)))))))

def event : WorkerEvent → Except IpcError (List UInt8)
  | .outboundSignal signal => do
    let signal ← bytes signal MAX_SIGNAL_BYTES
    pure (u8 1 ++ signal)
  | .nativeError => pure (u8 2)

end PayloadWriter

def requestTag : Request → UInt8
  | .prepareCaller ..     => 1
  | .prepareRecipient ..  => 2
  | .completeCaller ..    => 3
  | .completeRecipient .. => 4
  | .signal ..            => 5
  | .hangup ..            => 6
  | .attachMedia ..       => 7
  | .sendPcm ..           => 8
  | .receivePcm ..        => 9
  | .closeMedia ..        => 10
  | .pollEvent ..         => 11
  | .ackEvent ..          => 12

def responseTag : Response → UInt8
  | .callerPrepared ..     => 0x81
  | .recipientPrepared ..  => 0x82
  | .callerCompleted ..    => 0x83
  | .recipientCompleted .. => 0x84
  | .signalForwarded ..    => 0x85
  | .hungUp                => 0x86
  | .mediaAttached ..      => 0x87
  | .pcmSent               => 0x88
  | .pcmReceived ..        => 0x89
  | .pcmPending            => 0x8a
  | .mediaClosed           => 0x8b
  | .event ..              => 0x8c
  | .eventPending          => 0x8d
  | .eventAcknowledged ..  => 0x8e
  | .error ..              => 0xff

open PayloadWriter in
def requestFields : Request → Except IpcError (List UInt8)
  | .prepareCaller callId | .hangup callId | .pollEvent callId => pure (u64 callId)
  | .attachMedia callId requestId                    => pure (u64 callId ++ u64 requestId)
  | .sendPcm callId capability frame                 => pure (u64 callId ++ (array capability ++ array frame))
  | .receivePcm callId capability | .closeMedia callId capability => pure (u64 callId ++ array capability)
  | .prepareRecipient callId gaHash                  => pure (u64 callId ++ array gaHash)
  | .completeCaller callId gb config                 => do
    let config ← mediaStartConfig config
    pure (u64 callId ++ (array gb ++ config))
  | .completeRecipient callId ga expectedFingerprint config => do
    let config ← mediaStartConfig config
    pure (u64 callId ++ (array ga ++ (i64LE expectedFingerprint ++ config)))
  | .signal callId requestId signal                  => do
    let signal ← bytes signal MAX_SIGNAL_BYTES
    pure (u64 callId ++ (u64 requestId ++ signal))
  | .ackEvent callId eventId                         => pure (u64 callId ++ u64 eventId)

open PayloadWriter in
def responseFields : Response → Except IpcError (List UInt8)
  | .callerPrepared gaHash            => pure (array gaHash)
  | .recipientPrepared gb             => pure (array gb)
  | .callerCompleted ga fingerprint   => pure (array ga ++ i64LE fingerprint)
  | .recipientCompleted fingerprint   => pure (i64LE fingerprint)
  | .signalForwarded requestId        => pure (u64 requestId)
  | .mediaAttached requestId capability => pure (u64 requestId ++ array capability)
  | .pcmReceived frame                => pure (array frame)
  | .event eventId event              => do
    let event ← PayloadWriter.event event
    pure (u64 eventId ++ event)
  | .eventAcknowledged eventId        => pure (u64 eventId)
  | .error code                       => pure (u8 (errorCode code))
  | .hungUp | .pcmSent | .pcmPending | .mediaClosed | .eventPending => pure []

def encodeRequest (request : Request) : Except IpcError (List UInt8) := do
  let fields ← requestFields request
  pure (PROTOCOL_VERSION :: requestTag request :: fields)

def encodeResponse (response : Response) : Except IpcError (List UInt8) := do
  let fields ← responseFields response
  pure (PROTOCOL_VERSION :: responseTag response :: fields)

/-! ## What is read -/

namespace PayloadReader

def endpointKindOf (value : UInt8) : PayloadReader EndpointKind :=
  match value with
  | 0 => pure .inet
  | 1 => pure .lan
  | 2 => pure .udpRelay
  | 3 => pure .tcpRelay
  | _ => throw .malformed

def endpointKind : PayloadReader EndpointKind := do
  let value ← u8
  endpointKindOf value

def endpoint : PayloadReader MediaEndpoint := do
  let id ← i64
  let port ← u16
  let kind ← endpointKind
  let peerTag ← array 16
  let ipv4 ← string
  let ipv6 ← string
  pure { id, ipv4, ipv6, port, kind, peerTag }

def rtcServer : PayloadReader RtcServer := do
  let id ← u8
  let port ← u16
  let flags ← u8
  if flags &&& ~~~3 != 0 then throw .malformed else do
  let host ← string
  let username ← string
  let password ← string
  pure { id, host, port, username, password, isTurn := flags &&& 1 != 0, isTcp := flags &&& 2 != 0 }

def mediaStartConfig : PayloadReader MediaStartConfig := do
  let isOutgoing ← u8
  if isOutgoing > 1 then throw .malformed else do
  let initializationTimeoutMs ← u32
  let receiveTimeoutMs ← u32
  let flags ← u8
  if flags &&& ~~~0x3f != 0 then throw .malformed else do
  let endpointCount ← u8
  let rtcServerCount ← u8
  if endpointCount.toNat > MAX_ENDPOINTS || rtcServerCount.toNat > MAX_RTC_SERVERS
      || (endpointCount == 0 && rtcServerCount == 0 && flags &&& 1 == 0) then throw .malformed else do
  let endpoints ← Readers.times endpoint endpointCount.toNat
  let rtcServers ← Readers.times rtcServer rtcServerCount.toNat
  let config : MediaStartConfig :=
    { isOutgoing := isOutgoing == 1, initializationTimeoutMs, receiveTimeoutMs
      enableP2p := flags &&& 1 != 0, allowTcp := flags &&& 2 != 0, protocolV1 := flags &&& 4 != 0
      enableAec := flags &&& 8 != 0, enableNs := flags &&& 16 != 0, enableAgc := flags &&& 32 != 0
      endpoints, rtcServers }
  check config.validate
  pure config

def eventOf (kind : UInt8) : PayloadReader WorkerEvent :=
  match kind with
  | 1 => do
    let signal ← bytes MAX_SIGNAL_BYTES
    pure (.outboundSignal signal)
  | 2 => pure .nativeError
  | _ => throw .malformed

def event : PayloadReader WorkerEvent := do
  let kind ← u8
  eventOf kind

def new (input : List UInt8) : Except IpcError (List UInt8) :=
  match input with
  | []              => .error .unsupportedVersion
  | version :: rest =>
    if input.length < 2 ∨ input.length > MAX_FRAME_BYTES ∨ version ≠ PROTOCOL_VERSION then
      .error (if version = PROTOCOL_VERSION then .malformed else .unsupportedVersion)
    else .ok rest

end PayloadReader

def decodeError (value : UInt8) : PayloadReader ErrorCode :=
  match value with
  | 1 => pure .invalidRequest
  | 2 => pure .busy
  | 3 => pure .invalidState
  | 4 => pure .crypto
  | 5 => pure .mediaUnavailable
  | _ => throw .malformed

open PayloadReader in
/-- The arms of `match reader.tag()?`. -/
def readRequest (tag : UInt8) : PayloadReader Request :=
  match tag with
  | 1 => do
    let callId ← u64
    pure (.prepareCaller callId)
  | 2 => do
    let callId ← u64
    let gaHash ← array GA_HASH_BYTES
    pure (.prepareRecipient callId gaHash)
  | 3 => do
    let callId ← u64
    let gb ← array DH_PUBLIC_BYTES
    let config ← mediaStartConfig
    pure (.completeCaller callId gb config)
  | 4 => do
    let callId ← u64
    let ga ← array DH_PUBLIC_BYTES
    let expectedFingerprint ← i64LE
    let config ← mediaStartConfig
    pure (.completeRecipient callId ga expectedFingerprint config)
  | 5 => do
    let callId ← u64
    let requestId ← u64
    let signal ← bytes MAX_SIGNAL_BYTES
    pure (.signal callId requestId signal)
  | 6 => do
    let callId ← u64
    pure (.hangup callId)
  | 7 => do
    let callId ← u64
    let requestId ← u64
    pure (.attachMedia callId requestId)
  | 8 => do
    let callId ← u64
    let capability ← array PCM_CAPABILITY_BYTES
    let frame ← array PCM_FRAME_BYTES
    pure (.sendPcm callId capability frame)
  | 9 => do
    let callId ← u64
    let capability ← array PCM_CAPABILITY_BYTES
    pure (.receivePcm callId capability)
  | 10 => do
    let callId ← u64
    let capability ← array PCM_CAPABILITY_BYTES
    pure (.closeMedia callId capability)
  | 11 => do
    let callId ← u64
    pure (.pollEvent callId)
  | 12 => do
    let callId ← u64
    let eventId ← u64
    pure (.ackEvent callId eventId)
  | _ => throw .malformed

open PayloadReader in
def readResponse (tag : UInt8) : PayloadReader Response :=
  match tag with
  | 0x81 => do
    let gaHash ← array GA_HASH_BYTES
    pure (.callerPrepared gaHash)
  | 0x82 => do
    let gb ← array DH_PUBLIC_BYTES
    pure (.recipientPrepared gb)
  | 0x83 => do
    let ga ← array DH_PUBLIC_BYTES
    let fingerprint ← i64LE
    pure (.callerCompleted ga fingerprint)
  | 0x84 => do
    let fingerprint ← i64LE
    pure (.recipientCompleted fingerprint)
  | 0x85 => do
    let requestId ← u64
    pure (.signalForwarded requestId)
  | 0x86 => pure .hungUp
  | 0x87 => do
    let requestId ← u64
    let capability ← array PCM_CAPABILITY_BYTES
    pure (.mediaAttached requestId capability)
  | 0x88 => pure .pcmSent
  | 0x89 => do
    let frame ← array PCM_FRAME_BYTES
    pure (.pcmReceived frame)
  | 0x8a => pure .pcmPending
  | 0x8b => pure .mediaClosed
  | 0x8c => do
    let eventId ← u64
    let event ← PayloadReader.event
    pure (.event eventId event)
  | 0x8d => pure .eventPending
  | 0x8e => do
    let eventId ← u64
    pure (.eventAcknowledged eventId)
  | 0xff => do
    let value ← u8
    let code ← decodeError value
    pure (.error code)
  | _ => throw .malformed

open PayloadReader in
def decodeRequest (payload : List UInt8) : Except IpcError Request := do
  let input ← PayloadReader.new payload
  Readers.all .malformed (do let tag ← u8; readRequest tag) input

open PayloadReader in
def decodeResponse (payload : List UInt8) : Except IpcError Response := do
  let input ← PayloadReader.new payload
  Readers.all .malformed (do let tag ← u8; readResponse tag) input

namespace PayloadReader

def frame : PayloadReader (List UInt8) := do
  let header ← Readers.take .io 4
  let length := Endian.value header
  if ¬ (2 ≤ length ∧ length ≤ MAX_FRAME_BYTES) then throw .frameTooLarge else Readers.take .io length

end PayloadReader

/-- What is read of `input`: the next payload and what is left of the input, or none at its end. -/
def readFrame (input : List UInt8) : Except IpcError (Option (List UInt8) × List UInt8) :=
  match input with
  | [] => .ok (none, [])
  | _  => do
    let (payload, rest) ← PayloadReader.frame.run input
    pure (some payload, rest)

end VoiceIpc
end Crossgram
