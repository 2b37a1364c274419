import Crossgram.Lib.Framing
/-!
# Transport — the receiving side of a connection (packages/mtproto/src/transport: server-connection.ts,
server-obfuscation.ts, receive-buffer.ts)

Socket chunks are queued, appended to the receive buffer and decoded; the transport is read off the first bytes.  The
buffers are first-in first-out byte buffers with rewind, AES-CTR a keystream, mtcute's intermediate codecs parameters
that look at the unread bytes.  The drain loop suspends at each `await`: chunks may come in between.
-/
namespace Crossgram

/-! ## Buffers (`Bytes` of @fuman/io) -/

/-- `taken` is what a rewind can bring back. -/
structure Bytes where
  taken : List UInt8
  unread : List UInt8
  capacity : Nat

namespace Bytes

def alloc (capacity : Nat) : Bytes := { taken := [], unread := [], capacity := capacity }

variable (buffer : Bytes)

def available : Nat := buffer.unread.length

def readSync (n : Nat) : List UInt8 × Bytes :=
  (buffer.unread.take n, { buffer with taken := buffer.taken ++ buffer.unread.take n, unread := buffer.unread.drop n })

def rewind (n : Nat) : Bytes :=
  { buffer with
    taken := buffer.taken.take (buffer.taken.length - n)
    unread := buffer.taken.drop (buffer.taken.length - n) ++ buffer.unread }

/-- `writeSync`, with what is set into its view; `grow` is the new capacity where the old one is too small. -/
def writeSync (grow : Nat → Nat → Nat) (data : List UInt8) : Bytes :=
  let held := buffer.taken.length + buffer.unread.length + data.length
  { buffer with
    unread := buffer.unread ++ data
    capacity := if held ≤ buffer.capacity then buffer.capacity else grow buffer.capacity held }

def reset : Bytes := { buffer with taken := [], unread := [] }

def reclaim : Bytes := { buffer with taken := [] }

end Bytes

def MAX_RETAINED_RECEIVE_BYTES : Nat := 1024 * 1024

def reclaimReceiveBuffer (buffer : Bytes) (initialCapacity : Nat) : Bytes :=
  if buffer.available = 0 then
    if MAX_RETAINED_RECEIVE_BYTES < buffer.capacity then Bytes.alloc initialCapacity else buffer.reset
  else buffer.reclaim

/-! ## Codecs -/

/-- A decoding: a frame, `null`, or an exception. -/
abbrev Decoded := Except Unit (Option (List UInt8))

namespace AbridgedPacketCodec

def decode (reader : Bytes) (eof : Bool) : Decoded × Bytes :=
  if eof then (.ok none, reader)
  else if reader.available < 1 then (.ok none, reader)
  else
    let (first, body) := reader.readSync 1
    -- bit 7 asks for a quick ack
    let lengthMarker := (first.headD 0).toNat &&& 0x7f
    if lengthMarker < 0x7f then
      let length := lengthMarker * 4
      if body.available < length then (.ok none, body.rewind 1)
      else
        let (frame, rest) := body.readSync length
        (.ok (some frame), rest)
    else if body.available < 3 then (.ok none, body.rewind 1)
    else
      let (b, body) := body.readSync 3
      let length := ((b.getD 0 0).toNat ||| ((b.getD 1 0).toNat <<< 8) ||| ((b.getD 2 0).toNat <<< 16)) * 4
      if body.available < length then (.ok none, body.rewind 4)
      else
        let (frame, rest) := body.readSync length
        (.ok (some frame), rest)

def encode (frame : List UInt8) : List UInt8 :=
  let words := frame.length >>> 2
  if 0x7f ≤ words then
    [0x7f, UInt8.ofNat (words &&& 0xff), UInt8.ofNat ((words >>> 8) &&& 0xff), UInt8.ofNat ((words >>> 16) &&& 0xff)]
      ++ frame
  else UInt8.ofNat words :: frame

end AbridgedPacketCodec

structure MtcuteCodecs where
  intermediate : List UInt8 → Framing.Outcome (List UInt8)
  paddedIntermediate : List UInt8 → Framing.Outcome (List UInt8)

inductive InnerCodec
  | abridged
  | intermediate
  | paddedIntermediate

def mtcuteDecode (find : List UInt8 → Framing.Outcome (List UInt8)) (reader : Bytes) (eof : Bool) : Decoded × Bytes :=
  if eof then (.ok none, reader)
  else match find reader.unread with
    | .incomplete      => (.ok none, reader)
    | .frame data size => (.ok (some data), (reader.readSync size).2)
    | .fails           => (.error (), reader)

def InnerCodec.decode (mtcute : MtcuteCodecs) : InnerCodec → Bytes → Bool → Decoded × Bytes
  | .abridged           => AbridgedPacketCodec.decode
  | .intermediate       => mtcuteDecode mtcute.intermediate
  | .paddedIntermediate => mtcuteDecode mtcute.paddedIntermediate

/-! ## Obfuscation -/

/-- AES-CTR: its keystream and how much of it is used. -/
structure AesCtr where
  keystream : Nat → UInt8
  position : Nat

def applyKeystream (keystream : Nat → UInt8) : Nat → List UInt8 → List UInt8
  | _,        []      => []
  | position, b :: bs => (b ^^^ keystream position) :: applyKeystream keystream (position + 1) bs

def AesCtr.process (aes : AesCtr) (data : List UInt8) : List UInt8 × AesCtr :=
  (applyKeystream aes.keystream aes.position data, { aes with position := aes.position + data.length })

structure ServerObfuscatedCodec where
  encryptor : AesCtr
  decryptor : AesCtr
  inner : InnerCodec
  decodeBuf : Bytes

namespace ServerObfuscatedCodec

variable (mtcute : MtcuteCodecs) (grow : Nat → Nat → Nat) (codec : ServerObfuscatedCodec)

/-- `_finishDecode`. -/
def finishDecode (frame : Option (List UInt8)) (decodeBuf : Bytes) : ServerObfuscatedCodec :=
  if frame = none ∨ decodeBuf.available = 0 then
    { codec with decodeBuf := reclaimReceiveBuffer decodeBuf (16 * 1024) }
  else { codec with decodeBuf := decodeBuf }

/-- What has come in is deciphered into `_decodeBuf`. -/
def decipher (reader : Bytes) : ServerObfuscatedCodec × Bytes :=
  if 0 < reader.available then
    let (data, reader) := reader.readSync reader.available
    let (decrypted, decryptor) := codec.decryptor.process data
    ({ codec with
      decryptor := decryptor
      decodeBuf := (reclaimReceiveBuffer codec.decodeBuf (16 * 1024)).writeSync grow decrypted }, reader)
  else (codec, reader)

def decode (reader : Bytes) (eof : Bool) : Decoded × ServerObfuscatedCodec × Bytes :=
  if eof then (.ok none, codec, reader)
  else
    let (codec, reader) := codec.decipher grow reader
    match codec.inner.decode mtcute codec.decodeBuf eof with
    | (.ok frame, decodeBuf)  => (.ok frame, codec.finishDecode frame decodeBuf, reader)
    | (.error e,  decodeBuf)  => (.error e, { codec with decodeBuf := decodeBuf }, reader)

/-- `innerEncode` is the inner codec's `encode`. -/
def encode (innerEncode : List UInt8 → List UInt8) (frame : List UInt8) : List UInt8 × ServerObfuscatedCodec :=
  let (encrypted, encryptor) := codec.encryptor.process (innerEncode frame)
  (encrypted, { codec with encryptor := encryptor })

end ServerObfuscatedCodec

def allEqual (bytes : List UInt8) (value : UInt8) : Bool :=
  bytes[0]? = some value && bytes[1]? = some value && bytes[2]? = some value && bytes[3]? = some value

def selectInnerCodec (tag : List UInt8) : InnerCodec :=
  if allEqual tag 0xdd then .paddedIntermediate
  else if allEqual tag 0xef then .abridged
  else .intermediate

/-- `subarray`. -/
def subarray (bytes : List UInt8) (start stop : Nat) : List UInt8 := (bytes.take stop).drop start

/-- `crypto key iv` is the keystream of `createAesCtr`, `capacity` that of a new buffer. -/
def createServerObfuscation (crypto : List UInt8 → List UInt8 → Nat → UInt8) (capacity : Nat) (header : List UInt8) :
    Except Unit (ServerObfuscatedCodec × List UInt8) :=
  if header.length ≠ 64 then .error ()
  else
    let encryptKey := subarray header 8 40
    let encryptIv := subarray header 40 56
    let reversed := (subarray header 8 56).reverse
    let decryptKey := subarray reversed 0 32
    let decryptIv := subarray reversed 32 48
    let decryptor : AesCtr := { keystream := crypto encryptKey encryptIv, position := 0 }
    let encryptor : AesCtr := { keystream := crypto decryptKey decryptIv, position := 0 }
    let (decryptedHeader, decryptor) := decryptor.process header
    let innerTag := subarray decryptedHeader 56 60
    .ok ({ encryptor := encryptor, decryptor := decryptor, inner := selectInnerCodec innerTag,
           decodeBuf := Bytes.alloc capacity }, innerTag)

/-! ## The connection -/

inductive PacketCodec
  | plain (codec : InnerCodec)
  | obfuscated (codec : ServerObfuscatedCodec)

inductive Transport
  | plain (codec : InnerCodec)
  | obfuscated (inner : InnerCodec)

def PacketCodec.transport : PacketCodec → Transport
  | .plain codec      => .plain codec
  | .obfuscated codec => .obfuscated codec.inner

def PacketCodec.decode (mtcute : MtcuteCodecs) (grow : Nat → Nat → Nat) :
    PacketCodec → Bytes → Bool → Decoded × PacketCodec × Bytes
  | .plain codec,      reader, eof =>
    let (frame, reader) := codec.decode mtcute reader eof
    (frame, .plain codec, reader)
  | .obfuscated codec, reader, eof =>
    let (frame, codec, reader) := codec.decode mtcute grow reader eof
    (frame, .obfuscated codec, reader)

/-- `_detectTransport`: the codec, where the first bytes tell, and the buffer. -/
def detectTransport (crypto : List UInt8 → List UInt8 → Nat → UInt8) (capacity : Nat) (recvBuffer : Bytes) :
    Except Unit (Option PacketCodec) × Bytes :=
  if recvBuffer.available < 1 then (.ok none, recvBuffer)
  else
    let avail := recvBuffer.available
    let (first, buffer) := recvBuffer.readSync 1
    let buffer := buffer.rewind 1
    if first[0]? = some 0xef then (.ok (some (.plain .abridged)), (buffer.readSync 1).2)
    else if avail < 4 then (.ok none, buffer)
    else
      let (tag, buffer) := buffer.readSync 4
      let buffer := buffer.rewind 4
      if allEqual tag 0xee then (.ok (some (.plain .intermediate)), (buffer.readSync 4).2)
      else if allEqual tag 0xdd then (.ok (some (.plain .paddedIntermediate)), (buffer.readSync 4).2)
      else if avail < 64 then (.ok none, buffer)
      else
        let (header, buffer) := buffer.readSync 64
        match createServerObfuscation crypto capacity header with
        | .error e      => (.error e, buffer)
        | .ok (codec, _) => (.ok (some (.obfuscated codec)), buffer)

/-- Where `_drainSocketData` stands: not running, before its loop's test, before an `await` of `decode`, or over with
`finally` to come. -/
inductive DrainPhase
  | idle
  | looping
  | decoding
  | settled
deriving DecidableEq

/-- `chunks` lists what the socket gave, `frames` what the frame consumer was given. -/
structure ReceivingConnection where
  recvBuffer : Bytes
  pendingSocketData : List (List UInt8)
  phase : DrainPhase
  closed : Bool
  codec : Option PacketCodec
  chunks : List (List UInt8)
  frames : List (List UInt8)

inductive SocketEvent
  | data (chunk : List UInt8)
  | resume

/-- mtcute's codecs, AES-CTR, how a buffer grows and the size of a new one. -/
structure Platform where
  mtcute : MtcuteCodecs
  crypto : List UInt8 → List UInt8 → Nat → UInt8
  grow : Nat → Nat → Nat
  capacity : Nat

namespace ReceivingConnection

def empty : ReceivingConnection :=
  { recvBuffer := Bytes.alloc 65536, pendingSocketData := [], phase := .idle, closed := false, codec := none,
    chunks := [], frames := [] }

variable (platform : Platform) (c : ReceivingConnection)

/-- `_scheduleDecode`. -/
def scheduleDecode : ReceivingConnection :=
  if c.phase ≠ .idle ∨ c.closed then c else { c with phase := .looping }

/-- `_handleData`. -/
def handleData (chunk : List UInt8) : ReceivingConnection :=
  let c := { c with chunks := c.chunks ++ [chunk] }
  if c.closed then c else scheduleDecode { c with pendingSocketData := c.pendingSocketData ++ [chunk] }

def fail : ReceivingConnection := { c with closed := true, phase := .settled }

/-- One pass of the `while` loop of `_drainSocketData`, to its first `await`. -/
def drainPending : ReceivingConnection :=
  if c.closed ∨ c.pendingSocketData = [] then { c with phase := .settled }
  else
    let recvBuffer := c.pendingSocketData.foldl (fun buffer chunk => buffer.writeSync platform.grow chunk) c.recvBuffer
    let c := { c with pendingSocketData := [], recvBuffer := recvBuffer }
    match c.codec with
    | some _ => { c with phase := .decoding }
    | none   =>
      match detectTransport platform.crypto platform.capacity c.recvBuffer with
      | (.ok (some codec), buffer) => { c with codec := some codec, recvBuffer := buffer, phase := .decoding }
      | (.ok none,         buffer) => { c with recvBuffer := buffer, phase := .looping }
      | (.error _,         buffer) => fail { c with recvBuffer := buffer }

/-- One `decode` of the inner loop, and what follows it up to the next `await`. -/
def decodeNext (codec : PacketCodec) : ReceivingConnection :=
  match codec.decode platform.mtcute platform.grow c.recvBuffer false with
  | (.ok (some frame), codec, buffer) => { c with codec := some codec, recvBuffer := buffer, frames := c.frames ++ [frame] }
  | (.ok none,         codec, buffer) =>
    { c with codec := some codec, recvBuffer := reclaimReceiveBuffer buffer 65536, phase := .looping }
  | (.error _,         codec, buffer) => fail { c with codec := some codec, recvBuffer := buffer }

/-- The continuation of `finally`. -/
def finishDrain : ReceivingConnection :=
  let c := { c with phase := .idle }
  if c.pendingSocketData = [] then c else c.scheduleDecode

def resume : ReceivingConnection :=
  match c.phase with
  | .idle     => c
  | .looping  => c.drainPending platform
  | .decoding => c.codec.elim c (fun codec => c.decodeNext platform codec)
  | .settled  => c.finishDrain

def step (c : ReceivingConnection) : SocketEvent → Option ReceivingConnection
  | .data chunk => if chunk = [] then none else some (c.handleData chunk)
  | .resume     => if c.phase = .idle then none else some (c.resume platform)

end ReceivingConnection

end Crossgram
