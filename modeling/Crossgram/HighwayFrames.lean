import Crossgram.Lib.Hex
/-!
# HighwayFrames — the frames of a Highway upload (packages/platform-crossgram/src/highway.ts)

A block is posted in a frame: a head in protobuf between two lengths and the bytes of the block.  A server's answer has
the same shape, and acknowledges the block when its head carries neither an error code nor a return code.  What the
frame needs of protobuf-es and of Node's `Buffer` and `crypto` is the parameter `HighwayCodecs`.
-/
namespace Crossgram

open List

structure HighwayServer where
  host : String
  port : Nat

structure QQHighwayUploadPlan where
  servers : List HighwayServer
  ticket : String
  extendInfo : String
  selfUin : String
  commandId : Nat
  sequenceStart : Nat
  blockSize : Nat
  fileSize : Nat
  fileMd5 : String

structure HighwayBaseHead where
  version : Nat
  selfUin : String
  command : String
  sequence : Nat
  appId : Nat
  dataFlag : Nat
  commandId : Nat

structure HighwaySegmentHead where
  fileSize : Nat := 0
  offset : Nat := 0
  length : Nat := 0
  returnCode : Int := 0
  ticket : List UInt8 := []
  chunkMd5 : List UInt8 := []
  fileMd5 : List UInt8 := []

structure HighwayLoginSigHead where
  field1 : Nat
  appId : Nat

structure HighwayRequestHead where
  base : HighwayBaseHead
  segment : HighwaySegmentHead
  extendInfo : List UInt8
  field4 : Nat
  loginSig : HighwayLoginSigHead

structure HighwayResponseHead where
  segment : Option HighwaySegmentHead
  errorCode : Int

/-- `toBinary` and `fromBinary` of the two schemas, which throw on what they cannot write or read, `createHash('md5')`
and `Buffer.from(text, 'base64url')`. -/
structure HighwayCodecs where
  toBinary : HighwayRequestHead → Except String (List UInt8)
  fromBinary : List UInt8 → Except String HighwayResponseHead
  md5 : List UInt8 → List UInt8
  base64url : String → List UInt8

def highwayAppId : Nat := 1600001604
def highwayMaxInFlightBlocks : Nat := 8
def highwaySelectionBlockBytes : Nat := 128 * 1024

/-- `Number.isSafeInteger(n) && n > 0` -/
def isPositiveSafeInteger (n : Nat) : Bool := decide (0 < n) && decide (n ≤ 9007199254740991)

def validateHighwayPlan (plan : QQHighwayUploadPlan) : Except String Unit :=
  if plan.servers.isEmpty then .error "QQ Highway plan has no upload server"
  else if !isPositiveSafeInteger plan.blockSize then .error "QQ Highway plan has an invalid block size"
  else if !isPositiveSafeInteger plan.fileSize then .error "QQ Highway plan has an invalid file size"
  else .ok ()

/-- `hex(value, name, length)` -/
def hex (value name : String) (length : Nat) : Except String (List UInt8) :=
  if value.length = length ∧ value.toList.all (fun c => (Hex.digitValue c).isSome) then .ok (Hex.toBytes value)
  else .error s!"{name} must be {length} hexadecimal characters"

/-- `writeUInt32BE` -/
def uint32BE (n : Nat) : List UInt8 :=
  [UInt8.ofNat (n / 16777216), UInt8.ofNat (n / 65536), UInt8.ofNat (n / 256), UInt8.ofNat n]

/-- `readUInt32BE` -/
def readUInt32BE (bytes : List UInt8) (offset : Nat) : Nat :=
  (bytes.drop offset).take 4 |>.foldl (fun n byte => 256 * n + byte.toNat) 0

structure HighwayFrame where
  head : HighwayRequestHead
  body : List UInt8
  bytes : List UInt8

variable (codecs : HighwayCodecs) (plan : QQHighwayUploadPlan)

def highwayRequestHead (sequence offset : Nat) (body ticket extendInfo fileMd5 : List UInt8) : HighwayRequestHead :=
  { base :=
      { version := 1, selfUin := plan.selfUin, command := "PicUp.DataUp", sequence := sequence, appId := highwayAppId
        dataFlag := 16, commandId := plan.commandId }
    segment :=
      { fileSize := plan.fileSize, offset := offset, length := body.length, ticket := ticket
        chunkMd5 := codecs.md5 body, fileMd5 := fileMd5 }
    extendInfo := extendInfo
    field4 := 0
    loginSig := { field1 := 8, appId := highwayAppId } }

def encodeHighwayFrame (sequence offset : Nat) (body : List UInt8) : Except String HighwayFrame :=
  let ticket := codecs.base64url plan.ticket
  let extendInfo := codecs.base64url plan.extendInfo
  (hex plan.fileMd5 "QQ Highway file MD5" 32).bind (fun fileMd5 =>
    if ticket.isEmpty || extendInfo.isEmpty then .error "QQ Highway plan has incomplete metadata"
    else
      let request := highwayRequestHead codecs plan sequence offset body ticket extendInfo fileMd5
      (codecs.toBinary request).map (fun head =>
        { head := request, body := body
          bytes := [0x28] ++ uint32BE head.length ++ uint32BE body.length ++ head ++ body ++ [0x29] }))

def decodeHighwayResponse (payload : List UInt8) : Except String (Nat × Nat) :=
  if payload.length < 10 ∨ payload.head? ≠ some 0x28 ∨ payload.getLast? ≠ some 0x29 then
    .error "invalid QQ Highway response frame"
  else
    let headLength := readUInt32BE payload 1
    let bodyLength := readUInt32BE payload 5
    if 9 + headLength + bodyLength + 1 ≠ payload.length then .error "truncated QQ Highway response frame"
    else (codecs.fromBinary ((payload.drop 9).take headLength)).bind (fun head =>
      let returnCode := (head.segment.map (fun segment => segment.returnCode)).getD 0
      if head.errorCode ≠ 0 ∨ returnCode ≠ 0 then
        .error s!"QQ Highway rejected block: error={head.errorCode} return={returnCode}"
      else .ok ((head.segment.map (fun segment => segment.offset)).getD 0,
        (head.segment.map (fun segment => segment.length)).getD 0))

/-! ## Posting a block -/

inductive PostAnswer
  | throws (error : String)
  | response (ok : Bool) (status : Nat) (text : String) (body : List UInt8)

/-- A server and the answer with which it acknowledged a block. -/
structure HighwayAck where
  server : HighwayServer
  payload : List UInt8

def postHighwayServer (server : HighwayServer) : PostAnswer → Except String HighwayAck
  | .throws error => .error error
  | .response ok status text body =>
    if ok then (decodeHighwayResponse codecs body).map (fun _ => ⟨server, body⟩)
    else .error s!"QQ Highway HTTP {status}: {text}"

def highwayServerKey (server : HighwayServer) : String := s!"{server.host}:{server.port}"

def highwayCandidates (answers : Nat → PostAnswer) : Nat → List HighwayServer → List (Except String HighwayAck)
  | _, []             => []
  | i, server :: rest => postHighwayServer codecs server (answers i) :: highwayCandidates answers (i + 1) rest

/-- `Promise.any`: with several acknowledgements it does not matter which came first. -/
def promiseAny {α : Type} : List (Except String α) → Except (List String) α
  | []                 => .error []
  | .ok a :: _         => .ok a
  | .error e :: rest   => match promiseAny rest with
    | .ok a     => .ok a
    | .error es => .error (e :: es)

/-- `preferred` is what `preferredHighwayServers` has for the plan's servers, `aborted` the reason of an aborted signal;
`preferredAnswer` answers the post to the preferred server alone and `answers` those of the race. -/
def postHighwayBlock (hedge : Bool) (preferred aborted : Option String) (preferredAnswer : PostAnswer)
    (answers : Nat → PostAnswer) : Except String HighwayAck :=
  let isPreferred (server : HighwayServer) : Bool := decide (preferred = some (highwayServerKey server))
  let ordered := plan.servers.filter isPreferred ++ plan.servers.filter (fun server => !isPreferred server)
  let race (preferredError : String) (servers : List HighwayServer) : Except String HighwayAck :=
    match promiseAny (highwayCandidates codecs answers 0 servers) with
    | .ok ack       => .ok ack
    | .error errors => match aborted with
      | some reason => .error reason
      | none        => .error s!"all QQ Highway upload servers failed: {errors.getLast?.getD preferredError}"
  match ordered with
  | []             => race "undefined" []
  | server :: rest =>
    if hedge || !isPreferred server then race "undefined" ordered
    else match postHighwayServer codecs server preferredAnswer with
      | .ok ack      => .ok ack
      | .error error => match aborted with
        | some reason => .error reason
        | none        => race error rest

/-! ## What they do -/

variable {codecs plan}

theorem validateHighwayPlan_ok (h : validateHighwayPlan plan = .ok ()) :
    plan.servers ≠ [] ∧ 0 < plan.blockSize ∧ 0 < plan.fileSize := by
  unfold validateHighwayPlan at h
  split at h
  · cases h
  · rename_i hservers
    split at h
    · cases h
    · rename_i hblock
      split at h
      · cases h
      · rename_i hfile
        simp only [isPositiveSafeInteger, Bool.not_eq_true', Bool.and_eq_false_iff, decide_eq_false_iff_not, not_or,
          not_not] at hblock hfile
        exact ⟨fun hnil => hservers (by rw [hnil]; rfl), hblock.1, hfile.1⟩

/-- **The frame of a block**: its sequence number, its segment and the body, and the bytes made of them. -/
theorem encodeHighwayFrame_spec {sequence offset : Nat} {body : List UInt8} {frame : HighwayFrame}
    (h : encodeHighwayFrame codecs plan sequence offset body = .ok frame) :
    frame.body = body ∧ frame.head.base.sequence = sequence ∧ frame.head.segment.offset = offset ∧
      frame.head.segment.length = body.length ∧ frame.head.segment.chunkMd5 = codecs.md5 body ∧
      ∃ head, codecs.toBinary frame.head = .ok head ∧
        frame.bytes = [0x28] ++ uint32BE head.length ++ uint32BE body.length ++ head ++ body ++ [0x29] := by
  unfold encodeHighwayFrame at h
  simp only at h
  cases hmd5 : hex plan.fileMd5 "QQ Highway file MD5" 32 with
  | error e =>
    rw [hmd5] at h
    cases h
  | ok fileMd5 =>
    rw [hmd5] at h
    simp only [Except.bind] at h
    split at h
    · cases h
    · cases hhead : codecs.toBinary (highwayRequestHead codecs plan sequence offset body (codecs.base64url plan.ticket)
        (codecs.base64url plan.extendInfo) fileMd5) with
      | error e =>
        rw [hhead] at h
        cases h
      | ok head =>
        rw [hhead] at h
        cases h
        exact ⟨rfl, rfl, rfl, rfl, rfl, head, hhead, rfl⟩

/-- The answer acknowledges: its frame is whole and its head carries no error. -/
def Acknowledges (codecs : HighwayCodecs) (ack : HighwayAck) : Prop :=
  ∃ result, decodeHighwayResponse codecs ack.payload = .ok result

variable {ack : HighwayAck}

theorem postHighwayServer_ok {server : HighwayServer} {answer : PostAnswer}
    (h : postHighwayServer codecs server answer = .ok ack) : ack.server = server ∧ Acknowledges codecs ack := by
  cases answer with
  | throws error => cases h
  | response ok status text body =>
    simp only [postHighwayServer] at h
    split at h
    · cases hd : decodeHighwayResponse codecs body with
      | error e =>
        rw [hd] at h
        cases h
      | ok result =>
        rw [hd] at h
        cases h
        exact ⟨rfl, result, hd⟩
    · cases h

theorem promiseAny_ok {α : Type} {a : α} : ∀ {results : List (Except String α)}, promiseAny results = .ok a →
    .ok a ∈ results
  | .ok b :: rest, h => by
    cases h
    exact mem_cons_self
  | .error e :: rest, h => by
    rw [promiseAny] at h
    split at h
    · rename_i b hb
      cases h
      exact mem_cons_of_mem _ (promiseAny_ok hb)
    · cases h

theorem highwayCandidates_ok {answers : Nat → PostAnswer} :
    ∀ {servers : List HighwayServer} {i : Nat}, .ok ack ∈ highwayCandidates codecs answers i servers →
      ack.server ∈ servers ∧ Acknowledges codecs ack
  | [], _, h => by cases h
  | server :: rest, i, h => by
    rcases mem_cons.1 h with h | h
    · obtain ⟨hserver, hack⟩ := postHighwayServer_ok h.symm
      exact ⟨hserver ▸ mem_cons_self, hack⟩
    · obtain ⟨hserver, hack⟩ := highwayCandidates_ok h
      exact ⟨mem_cons_of_mem server hserver, hack⟩

/-- **A posted block was acknowledged without error by a server of the plan.** -/
theorem postHighwayBlock_ok {hedge : Bool} {preferred aborted : Option String} {preferredAnswer : PostAnswer}
    {answers : Nat → PostAnswer}
    (h : postHighwayBlock codecs plan hedge preferred aborted preferredAnswer answers = .ok ack) :
    ack.server ∈ plan.servers ∧ Acknowledges codecs ack := by
  unfold postHighwayBlock at h
  simp only at h
  have hrace : ∀ servers error, (∀ server ∈ servers, server ∈ plan.servers) →
      (match promiseAny (highwayCandidates codecs answers 0 servers) with
        | .ok ack => Except.ok ack
        | .error errors => match aborted with
          | some reason => .error reason
          | none => .error s!"all QQ Highway upload servers failed: {errors.getLast?.getD error}") = .ok ack →
      ack.server ∈ plan.servers ∧ Acknowledges codecs ack := by
    intro servers error hservers hrace
    split at hrace
    · rename_i ack' hany
      cases hrace
      obtain ⟨hserver, hack⟩ := highwayCandidates_ok (promiseAny_ok hany)
      exact ⟨hservers _ hserver, hack⟩
    · cases aborted <;> cases hrace
  have hordered : ∀ server ∈ plan.servers.filter (fun server => decide (preferred = some (highwayServerKey server))) ++
      plan.servers.filter (fun server => !decide (preferred = some (highwayServerKey server))), server ∈ plan.servers := by
    intro server hserver
    rcases mem_append.1 hserver with hserver | hserver
    · exact (mem_filter.1 hserver).1
    · exact (mem_filter.1 hserver).1
  generalize plan.servers.filter (fun server => decide (preferred = some (highwayServerKey server))) ++
    plan.servers.filter (fun server => !decide (preferred = some (highwayServerKey server))) = ordered at h hordered
  cases ordered with
  | nil => exact hrace [] _ (fun _ hserver => absurd hserver not_mem_nil) h
  | cons server rest =>
    simp only at h
    split at h
    · exact hrace (server :: rest) _ hordered h
    · split at h
      · rename_i ack' hpost
        cases h
        obtain ⟨hserver, hack⟩ := postHighwayServer_ok hpost
        exact ⟨hserver ▸ hordered server mem_cons_self, hack⟩
      · cases aborted with
        | some reason => cases h
        | none => exact hrace rest _ (fun s hs => hordered s (mem_cons_of_mem server hs)) h

end Crossgram
