import Crossgram.VoiceIpcCodec
import Crossgram.VoiceWorkerClient
import Mathlib.Data.List.Forall2
/-!
# VoiceIpcAgreement — the two ends of the voice worker IPC

What the bridge encodes is what the worker decodes when no server asks for TCP without TURN and every string is well
formed; what the worker answers is what the bridge reads.
-/
namespace Crossgram
namespace VoiceIpc
namespace Client

open Endian List

/-! ## The same values on both ends -/

def SameText (text : Text) (value : String) : Prop := text = Utf16.encode value.toList

def SameLong (long : Long) (value : Int64) : Prop :=
  long.high.toUInt32.toNat * 4294967296 + long.low.toUInt32.toNat = value.toUInt64.toNat

def kindOf : EndpointKind → VoiceWorkerEndpointKind
  | .inet     => .inet
  | .lan      => .lan
  | .udpRelay => .udpRelay
  | .tcpRelay => .tcpRelay

structure SameEndpoint (endpoint : VoiceWorkerEndpoint) (value : MediaEndpoint) : Prop where
  id : SameLong endpoint.id value.id
  ipv4 : SameText endpoint.ipv4 value.ipv4
  ipv6 : SameText endpoint.ipv6 value.ipv6
  port : endpoint.port = .integer value.port.toNat
  kind : endpoint.kind = kindOf value.kind
  peerTag : endpoint.peerTag = value.peerTag.val

structure SameServer (server : VoiceWorkerRtcServer) (value : RtcServer) : Prop where
  id : server.id = .integer value.id.toNat
  host : SameText server.host value.host
  port : server.port = .integer value.port.toNat
  username : SameText server.username value.username
  password : SameText server.password value.password
  turn : server.turn = value.isTurn
  tcp : server.tcp = value.isTcp

structure SameConfig (config : VoiceWorkerMediaStartConfig) (isOutgoing : Bool) (value : MediaStartConfig) : Prop where
  isOutgoing : value.isOutgoing = isOutgoing
  initializationTimeoutMs : config.initializationTimeoutMs = .integer value.initializationTimeoutMs.toNat
  receiveTimeoutMs : config.receiveTimeoutMs = .integer value.receiveTimeoutMs.toNat
  enableP2p : config.enableP2p = value.enableP2p
  allowTcp : config.allowTcp = value.allowTcp
  protocolV1 : config.protocolV1 = value.protocolV1
  enableAec : config.enableAec = value.enableAec
  enableNs : config.enableNs = value.enableNs
  enableAgc : config.enableAgc = value.enableAgc
  endpoints : List.Forall₂ SameEndpoint config.endpoints value.endpoints
  rtcServers : List.Forall₂ SameServer (config.rtcServers.getD []) value.rtcServers

inductive SameRequest : VoiceWorkerIpcRequest → Request → Prop
  | prepareCaller (callId : UInt64) : SameRequest (.prepareCaller callId.toNat) (.prepareCaller callId)
  | prepareRecipient (callId : UInt64) (hash : FixedBytes GA_HASH_BYTES) :
      SameRequest (.prepareRecipient callId.toNat hash.val) (.prepareRecipient callId hash)
  | completeCaller (callId : UInt64) (gb : FixedBytes DH_PUBLIC_BYTES) {config : VoiceWorkerMediaStartConfig}
      {value : MediaStartConfig} (h : SameConfig config true value) :
      SameRequest (.completeCaller callId.toNat gb.val config) (.completeCaller callId gb value)
  | completeRecipient (callId : UInt64) (ga : FixedBytes DH_PUBLIC_BYTES) {long : Long} {fingerprint : Int64}
      (hlong : SameLong long fingerprint) {config : VoiceWorkerMediaStartConfig} {value : MediaStartConfig}
      (h : SameConfig config false value) :
      SameRequest (.completeRecipient callId.toNat ga.val long config) (.completeRecipient callId ga fingerprint value)
  | signal (callId requestId : UInt64) (signal : List UInt8) :
      SameRequest (.signal callId.toNat requestId.toNat signal) (.signal callId requestId signal)
  | hangup (callId : UInt64) : SameRequest (.hangup callId.toNat) (.hangup callId)
  | attachMedia (callId requestId : UInt64) :
      SameRequest (.attachMedia callId.toNat requestId.toNat) (.attachMedia callId requestId)
  | sendPcm (callId : UInt64) (capability : FixedBytes PCM_CAPABILITY_BYTES) (frame : FixedBytes PCM_FRAME_BYTES) :
      SameRequest (.sendPcm callId.toNat capability.val frame.val) (.sendPcm callId capability frame)
  | receivePcm (callId : UInt64) (capability : FixedBytes PCM_CAPABILITY_BYTES) :
      SameRequest (.receivePcm callId.toNat capability.val) (.receivePcm callId capability)
  | closeMedia (callId : UInt64) (capability : FixedBytes PCM_CAPABILITY_BYTES) :
      SameRequest (.closeMedia callId.toNat capability.val) (.closeMedia callId capability)
  | pollEvent (callId : UInt64) : SameRequest (.pollEvent callId.toNat) (.pollEvent callId)
  | ackEvent (callId eventId : UInt64) : SameRequest (.ackEvent callId.toNat eventId.toNat) (.ackEvent callId eventId)

def longOf (value : Int64) : Long where
  low := (UInt32.ofNat value.toUInt64.toNat).toInt32
  high := (UInt32.ofNat (value.toUInt64.toNat / 4294967296)).toInt32
  unsigned := false

def responseOf : Response → VoiceWorkerIpcResponse
  | .callerPrepared gaHash               => .callerPrepared gaHash.val
  | .recipientPrepared gb                => .recipientPrepared gb.val
  | .callerCompleted ga fingerprint      => .callerCompleted ga.val (longOf fingerprint)
  | .recipientCompleted fingerprint      => .recipientCompleted (longOf fingerprint)
  | .signalForwarded requestId           => .signalForwarded requestId.toNat
  | .hungUp                              => .hungUp
  | .mediaAttached requestId capability  => .mediaAttached requestId.toNat capability.val
  | .pcmSent                             => .pcmSent
  | .pcmReceived frame                   => .pcmReceived frame.val
  | .pcmPending                          => .pcmPending
  | .mediaClosed                         => .mediaClosed
  | .event eventId (.outboundSignal signal) => .event eventId.toNat (.outboundSignal signal)
  | .event eventId .nativeError          => .event eventId.toNat .nativeError
  | .eventPending                        => .eventPending
  | .eventAcknowledged eventId           => .eventAcknowledged eventId.toNat
  | .error code                          => .error (PayloadWriter.errorCode code).toNat

/-- No server asks for TCP without TURN, and every string is well formed. -/
structure VoiceWorkerMediaStartConfig.IsCarried (config : VoiceWorkerMediaStartConfig) : Prop where
  turn : ∀ server ∈ config.rtcServers.getD [], server.tcp = true → server.turn = true
  endpoints : ∀ endpoint ∈ config.endpoints,
    Utf16.isWellFormed endpoint.ipv4 = true ∧ Utf16.isWellFormed endpoint.ipv6 = true
  rtcServers : ∀ server ∈ config.rtcServers.getD [], Utf16.isWellFormed server.host = true ∧
    Utf16.isWellFormed server.username = true ∧ Utf16.isWellFormed server.password = true

def VoiceWorkerIpcRequest.IsCarried : VoiceWorkerIpcRequest → Prop
  | .completeCaller _ _ config | .completeRecipient _ _ _ config => config.IsCarried
  | _ => True

/-! ## The fields of a request -/

variable {output : List UInt8}

theorem fixedBytes_eq_ok {value : List UInt8} {n : Nat} :
    fixedBytes value n = .ok output ↔ value.length = n ∧ output = value := by
  unfold fixedBytes
  by_cases hlen : value.length = n
  · rw [if_neg (fun h => h hlen)]
    constructor
    · intro h
      cases h
      exact ⟨hlen, rfl⟩
    · rintro ⟨_, rfl⟩
      rfl
  · rw [if_pos hlen]
    constructor
    · intro h
      cases h
    · rintro ⟨h, _⟩
      exact absurd h hlen

theorem exists_fixedBytes {value : List UInt8} {n : Nat} (h : fixedBytes value n = .ok output) :
    ∃ v : FixedBytes n, value = v.val ∧ output = PayloadWriter.array v := by
  obtain ⟨hlen, rfl⟩ := fixedBytes_eq_ok.1 h
  exact ⟨⟨output, hlen⟩, rfl, rfl⟩

theorem exists_u64 {value : Int} (h : u64 value = .ok output) :
    ∃ v : UInt64, value = v.toNat ∧ output = PayloadWriter.u64 v := by
  unfold u64 at h
  split at h
  · cases h
  · rename_i hrange
    cases h
    unfold MAX_U64 at hrange
    have hnat : (UInt64.ofNat value.toNat).toNat = value.toNat :=
      UInt64.toNat_ofNat'.trans (Nat.mod_eq_of_lt (by omega))
    refine ⟨UInt64.ofNat value.toNat, ?_, ?_⟩
    · rw [hnat]
      omega
    · rw [PayloadWriter.u64, hnat]

theorem word_lt (value : Int32) : value.toUInt32.toNat < 4294967296 := value.toUInt32.toNat_lt

theorem big_words {high low : Nat} (hlow : low < 4294967296) :
    Endian.big 8 (high * 4294967296 + low) = Endian.big 4 high ++ Endian.big 4 low := by
  have hbound : Endian.bound 4 = 4294967296 := by decide
  rw [big_add 4 4, hbound]
  congr 1
  · congr 1
    omega
  · rw [← big_mod 4 (high * 4294967296 + low), hbound]
    congr 1
    omega

def wordsValue (long : Long) : Int64 :=
  (UInt64.ofNat (long.high.toUInt32.toNat * 4294967296 + long.low.toUInt32.toNat)).toInt64

theorem sameLong_wordsValue (long : Long) : SameLong long (wordsValue long) := by
  have hhigh := word_lt long.high
  have hlow := word_lt long.low
  unfold SameLong wordsValue
  rw [UInt64.toUInt64_toInt64, UInt64.toNat_ofNat', Nat.mod_eq_of_lt]
  omega

theorem i64le_eq {long : Long} {value : Int64} (h : SameLong long value) : i64le long = PayloadWriter.i64LE value := by
  unfold i64le int32LE PayloadWriter.i64LE PayloadWriter.u64
  rw [← h, big_words (word_lt _), reverse_append]

theorem toInt_emod (value : Int32) : value.toInt % 4294967296 = value.toUInt32.toNat := by
  have h : value.toInt = value.toUInt32.toBitVec.toInt := rfl
  rw [h, BitVec.toInt_eq_toNat_cond]
  have hlt := word_lt value
  have hnat : value.toUInt32.toBitVec.toNat = value.toUInt32.toNat := rfl
  rw [hnat]
  split <;> omega

theorem i64_eq {long : Long} {value : Int64} (h : SameLong long value) : i64 long = PayloadWriter.i64 value := by
  have hlow := word_lt long.low
  have hhigh := word_lt long.high
  have hwords : (long.toBigInt % 18446744073709551616).toNat =
      long.high.toUInt32.toNat * 4294967296 + long.low.toUInt32.toNat := by
    unfold Long.toBigInt
    cases long.unsigned with
    | true => simp only [if_true]; omega
    | false =>
      have hmod := toInt_emod long.high
      simp only [Bool.false_eq_true, if_false]
      omega
  unfold i64 PayloadWriter.i64 PayloadWriter.u64
  rw [hwords, h]

variable {number : Number}

theorem exists_within {low high : Int} (h : number.isWithin low high = true) :
    ∃ value : Int, number = .integer value ∧ low ≤ value ∧ value ≤ high := by
  cases number with
  | integer value =>
    unfold Number.isWithin at h
    rw [Bool.and_eq_true, Bool.and_eq_true, decide_eq_true_eq, decide_eq_true_eq] at h
    exact ⟨value, rfl, h.1.2, h.2⟩
  | other => cases h

/-! ## The start configuration -/

variable {text : Text} {value : String}

theorem SameText.utf8 (h : SameText text value) : utf8 text = asBytes value := by
  unfold SameText at h
  unfold Client.utf8
  rw [h, Utf16.scalars_encode, ← asBytes_ofList, String.ofList_toList]

theorem SameText.isEmpty (h : SameText text value) :
    text.isEmpty = value.toList.isEmpty := by
  have hnil : Utf16.scalars (Utf16.encode value.toList) = [] ↔ Utf16.encode value.toList = [] := Utf16.scalars_eq_nil
  rw [Utf16.scalars_encode] at hnil
  unfold SameText at h
  rw [h, Bool.eq_iff_iff, List.isEmpty_iff, List.isEmpty_iff]
  exact hnil.symm

theorem SameText.contains (h : SameText text value) :
    text.contains 0 = containsNul value := by
  unfold SameText at h
  unfold containsNul
  rw [h, Bool.eq_iff_iff, contains_iff_mem, contains_iff_mem]
  exact Utf16.nul_mem_encode

theorem exists_text (h : Utf16.isWellFormed text = true) : ∃ value, SameText text value := by
  refine ⟨String.ofList (Utf16.scalars text), ?_⟩
  unfold SameText
  rw [String.toList_ofList, Utf16.encode_scalars h]

theorem SameText.isWellFormed (h : SameText text value) :
    Utf16.isWellFormed text = true :=
  Utf16.isWellFormed_iff.2 ⟨_, h⟩

theorem SameText.string (h : SameText text value)
    (hout : boundedString text = .ok output) : PayloadWriter.string value = .ok output := by
  unfold boundedString at hout
  dsimp only at hout
  rw [h.utf8] at hout
  split at hout
  · cases hout
  · rename_i hshort
    cases hout
    have hlen : (UInt16.ofNat (asBytes value).length).toNat = (asBytes value).length :=
      UInt16.toNat_ofNat'.trans (Nat.mod_eq_of_lt (by omega))
    refine PayloadWriter.bytes_eq_ok.2 ⟨by unfold MAX_HOST_BYTES; omega, by omega, ?_⟩
    rw [PayloadWriter.u16, hlen]

theorem exists_byte {high : Int} (hhigh : high ≤ 255) (h : number.isWithin 1 high = true) :
    ∃ v : UInt8, number = .integer v.toNat ∧ v ≠ 0 ∧ UInt8.ofNat number.toNat = v := by
  obtain ⟨value, rfl, hlow, hle⟩ := exists_within h
  have hnat : (UInt8.ofNat value.toNat).toNat = value.toNat :=
    UInt8.toNat_ofNat'.trans (Nat.mod_eq_of_lt (by omega))
  refine ⟨UInt8.ofNat value.toNat, ?_, ?_, rfl⟩
  · rw [hnat]
    congr 1
    omega
  · intro hzero
    rw [hzero] at hnat
    have : (0 : UInt8).toNat = 0 := rfl
    omega

theorem exists_port (h : number.isWithin 1 65535 = true) :
    ∃ v : UInt16, number = .integer v.toNat ∧ v ≠ 0 ∧ Endian.big 2 number.toNat = PayloadWriter.u16 v := by
  obtain ⟨value, rfl, hlow, hle⟩ := exists_within h
  have hnat : (UInt16.ofNat value.toNat).toNat = value.toNat :=
    UInt16.toNat_ofNat'.trans (Nat.mod_eq_of_lt (by omega))
  refine ⟨UInt16.ofNat value.toNat, ?_, ?_, ?_⟩
  · rw [hnat]
    congr 1
    omega
  · intro hzero
    rw [hzero] at hnat
    have : (0 : UInt16).toNat = 0 := rfl
    omega
  · rw [PayloadWriter.u16, hnat]
    rfl

theorem exists_timeout (h : number.isWithin 1 0xffffffff = true) :
    ∃ v : UInt32, number = .integer v.toNat ∧ v ≠ 0 ∧ Endian.big 4 number.toNat = PayloadWriter.u32 v := by
  obtain ⟨value, rfl, hlow, hle⟩ := exists_within h
  have hnat : (UInt32.ofNat value.toNat).toNat = value.toNat :=
    UInt32.toNat_ofNat'.trans (Nat.mod_eq_of_lt (by omega))
  refine ⟨UInt32.ofNat value.toNat, ?_, ?_, ?_⟩
  · rw [hnat]
    congr 1
    omega
  · intro hzero
    rw [hzero] at hnat
    have : (0 : UInt32).toNat = 0 := rfl
    omega
  · rw [PayloadWriter.u32, hnat]
    rfl

theorem exists_kind (kind : VoiceWorkerEndpointKind) :
    ∃ value, kind = kindOf value ∧ kindByte kind = PayloadWriter.endpointKind value := by
  cases kind with
  | inet => exact ⟨.inet, rfl, rfl⟩
  | lan => exact ⟨.lan, rfl, rfl⟩
  | udpRelay => exact ⟨.udpRelay, rfl, rfl⟩
  | tcpRelay => exact ⟨.tcpRelay, rfl, rfl⟩

/-- **An endpoint that the bridge sends is an endpoint that the worker takes.** -/
theorem exists_endpoint {endpoint copy : VoiceWorkerEndpoint}
    (hcopy : cloneEndpoint endpoint = .ok copy) (hout : endpointBytes copy = .ok output)
    (hipv4 : Utf16.isWellFormed endpoint.ipv4 = true) (hipv6 : Utf16.isWellFormed endpoint.ipv6 = true) :
    ∃ value, SameEndpoint endpoint value ∧ value.isInvalid = false ∧ PayloadWriter.endpoint value = .ok output := by
  unfold cloneEndpoint at hcopy
  split at hcopy
  · cases hcopy
  · rename_i hvalid
    cases hcopy
    obtain ⟨ipv4, hsame4⟩ := exists_text hipv4
    obtain ⟨ipv6, hsame6⟩ := exists_text hipv6
    rw [hsame4.isEmpty, hsame6.isEmpty, hsame4.contains, hsame6.contains, hsame4.utf8, hsame6.utf8] at hvalid
    simp only [Bool.or_eq_true, Bool.and_eq_true, not_or, Bool.not_eq_true', Bool.not_eq_false, Bool.not_eq_true,
      decide_eq_true_eq, bne_iff_ne, not_not] at hvalid
    obtain ⟨⟨⟨⟨⟨⟨hport, hnonempty⟩, hnul4⟩, hnul6⟩, hlen4⟩, hlen6⟩, htag⟩ := hvalid
    obtain ⟨peerTag, hpeer, hout⟩ := Results.bind_ok.1 hout
    obtain ⟨bytes4, hbytes4, hout⟩ := Results.bind_ok.1 hout
    obtain ⟨bytes6, hbytes6, hout⟩ := Results.bind_ok.1 hout
    obtain ⟨tag, htagValue, rfl⟩ := exists_fixedBytes hpeer
    obtain ⟨port, hportValue, hportZero, hportBytes⟩ := exists_port hport
    obtain ⟨kind, hkind, hkindByte⟩ := exists_kind endpoint.kind
    refine ⟨⟨wordsValue endpoint.id, ipv4, ipv6, port, kind, tag⟩,
      ⟨sameLong_wordsValue _, hsame4, hsame6, hportValue, hkind, htagValue⟩, ?_, ?_⟩
    · unfold MediaEndpoint.isInvalid MAX_HOST_BYTES
      dsimp only
      rw [hnul4, hnul6, decide_eq_false hlen4, decide_eq_false hlen6, beq_eq_false_iff_ne.2 hportZero,
        Bool.eq_false_iff.2 (fun h => hnonempty (Bool.and_eq_true_iff.1 h))]
      rfl
    · have hid : i64 (Long.fromBits endpoint.id.low endpoint.id.high false) = PayloadWriter.i64 (wordsValue endpoint.id) :=
        i64_eq (sameLong_wordsValue endpoint.id)
      refine Results.bind_ok.2 ⟨_, hsame4.string hbytes4, Results.bind_ok.2 ⟨_, hsame6.string hbytes6, ?_⟩⟩
      cases hout
      dsimp only
      rw [hid, hportBytes, hkindByte]
      simp only [append_assoc]
      rfl

/-- **A server that the bridge sends is a server that the worker takes, when it asks for TCP with TURN only.** -/
theorem exists_rtcServer {server copy : VoiceWorkerRtcServer}
    (hcopy : cloneRtcServer server = .ok copy) (hout : rtcServerBytes copy = .ok output)
    (hturn : server.tcp = true → server.turn = true) (hhost : Utf16.isWellFormed server.host = true)
    (husername : Utf16.isWellFormed server.username = true) (hpassword : Utf16.isWellFormed server.password = true) :
    ∃ value, SameServer server value ∧ value.isInvalid = false ∧ PayloadWriter.rtcServer value = .ok output := by
  unfold cloneRtcServer at hcopy
  split at hcopy
  · cases hcopy
  · rename_i hvalid
    cases hcopy
    obtain ⟨host, hsameh⟩ := exists_text hhost
    obtain ⟨username, hsameu⟩ := exists_text husername
    obtain ⟨password, hsamep⟩ := exists_text hpassword
    rw [hsameh.isEmpty, hsameu.isEmpty, hsamep.isEmpty, hsameh.contains, hsameu.contains, hsamep.contains, hsameh.utf8,
      hsameu.utf8, hsamep.utf8] at hvalid
    simp only [Bool.or_eq_true, not_or, Bool.not_eq_true', Bool.not_eq_false, Bool.not_eq_true,
      decide_eq_true_eq] at hvalid
    obtain ⟨⟨⟨⟨⟨⟨⟨⟨⟨⟨hid, hempty⟩, hnulh⟩, hport⟩, hnulu⟩, hnulp⟩, hlenh⟩, hlenu⟩, hlenp⟩, hwith⟩, hwithout⟩ := hvalid
    obtain ⟨hostBytes, hbytesh, hout⟩ := Results.bind_ok.1 hout
    obtain ⟨usernameBytes, hbytesu, hout⟩ := Results.bind_ok.1 hout
    obtain ⟨passwordBytes, hbytesp, hout⟩ := Results.bind_ok.1 hout
    obtain ⟨id, hidValue, hidZero, hidByte⟩ := exists_byte (by decide) hid
    obtain ⟨port, hportValue, hportZero, hportBytes⟩ := exists_port hport
    have htcp : (server.tcp && !server.turn) = false := by
      cases hb : server.tcp with
      | false => rfl
      | true => rw [hturn hb]; rfl
    refine ⟨⟨id, host, port, username, password, server.turn, server.tcp⟩,
      ⟨hidValue, hsameh, hportValue, hsameu, hsamep, rfl, rfl⟩, ?_, ?_⟩
    · unfold RtcServer.isInvalid MAX_HOST_BYTES
      dsimp only
      rw [hempty, hnulh, hnulu, hnulp, hwith, hwithout, htcp, decide_eq_false hlenh, decide_eq_false hlenu,
        decide_eq_false hlenp, beq_eq_false_iff_ne.2 hidZero, beq_eq_false_iff_ne.2 hportZero]
      rfl
    · have hflags : ∀ turn tcp : Bool,
          [UInt8.ofNat (turn.toNat ||| tcp.toNat <<< 1)] = PayloadWriter.u8 (PayloadWriter.serverFlags turn tcp) := by
        decide
      refine Results.bind_ok.2 ⟨_, hsameh.string hbytesh, Results.bind_ok.2 ⟨_, hsameu.string hbytesu,
        Results.bind_ok.2 ⟨_, hsamep.string hbytesp, ?_⟩⟩⟩
      cases hout
      rw [hidByte, hportBytes, hflags]
      simp only [append_assoc]
      rfl

theorem exists_each {α β : Type} {clone : α → Except VoiceCallError α} {bytes : α → Except VoiceCallError (List UInt8)}
    {write : β → Except IpcError (List UInt8)} {Same : α → β → Prop} {Good : β → Prop} :
    ∀ {values copies : List α} {outputs : List (List UInt8)},
      (∀ a ∈ values, ∀ copy output, clone a = .ok copy → bytes copy = .ok output →
        ∃ b, Same a b ∧ Good b ∧ write b = .ok output) →
      values.mapM clone = .ok copies → copies.mapM bytes = .ok outputs →
      ∃ others, List.Forall₂ Same values others ∧ (∀ b ∈ others, Good b) ∧
        PayloadWriter.each write others = .ok outputs.flatten ∧ copies.length = others.length
  | [], copies, outputs, _, hclone, hbytes => by
    rw [mapM_nil] at hclone
    cases hclone
    rw [mapM_nil] at hbytes
    cases hbytes
    exact ⟨[], .nil, fun b hb => (by cases hb), rfl, rfl⟩
  | a :: values, copies, outputs, hone, hclone, hbytes => by
    rw [mapM_cons] at hclone
    obtain ⟨copy, hcopy, hclone⟩ := Results.bind_ok.1 hclone
    obtain ⟨rest, hrest, hclone⟩ := Results.bind_ok.1 hclone
    cases hclone
    rw [mapM_cons] at hbytes
    obtain ⟨output, hout, hbytes⟩ := Results.bind_ok.1 hbytes
    obtain ⟨outs, houts, hbytes⟩ := Results.bind_ok.1 hbytes
    cases hbytes
    obtain ⟨b, hsame, hgood, hwrite⟩ := hone a mem_cons_self copy output hcopy hout
    obtain ⟨others, hsames, hgoods, hwrites, hlen⟩ :=
      exists_each (fun a' ha' => hone a' (mem_cons_of_mem _ ha')) hrest houts
    refine ⟨b :: others, .cons hsame hsames, ?_, ?_, congrArg Nat.succ hlen⟩
    · intro b' hb'
      rcases mem_cons.1 hb' with rfl | hb'
      · exact hgood
      · exact hgoods b' hb'
    · exact Results.bind_ok.2 ⟨output, hwrite, Results.bind_ok.2 ⟨_, hwrites, rfl⟩⟩

/-- **A start configuration that the bridge sends is one that the worker takes.** -/
theorem exists_config {config : VoiceWorkerMediaStartConfig} {isOutgoing : Bool}
    (hout : mediaStartConfig config isOutgoing = .ok output) (hcarried : config.IsCarried) :
    ∃ value, SameConfig config isOutgoing value ∧ PayloadWriter.mediaStartConfig value = .ok output := by
  obtain ⟨normalized, hclone, hout⟩ := Results.bind_ok.1 hout
  obtain ⟨endpoints, hendpoints, hout⟩ := Results.bind_ok.1 hout
  obtain ⟨rtcServers, hservers, hout⟩ := Results.bind_ok.1 hout
  unfold cloneMediaStartConfig at hclone
  split at hclone
  · cases hclone
  · rename_i hvalid
    obtain ⟨copies, hcopies, hclone⟩ := Results.bind_ok.1 hclone
    obtain ⟨copies', hcopies', hclone⟩ := Results.bind_ok.1 hclone
    cases hclone
    simp only [Bool.or_eq_true, Bool.and_eq_true, not_or, Bool.not_eq_true', Bool.not_eq_false, decide_eq_true_eq,
      List.isEmpty_iff] at hvalid
    obtain ⟨⟨⟨⟨hinit, hreceive⟩, hcount⟩, hcount'⟩, hsome⟩ := hvalid
    obtain ⟨init, hinitValue, hinitZero, hinitBytes⟩ := exists_timeout hinit
    obtain ⟨receive, hreceiveValue, hreceiveZero, hreceiveBytes⟩ := exists_timeout hreceive
    obtain ⟨others, hsame, hgood, hwrite, hlen⟩ := exists_each
      (fun e he _ _ hc hb => exists_endpoint hc hb (hcarried.endpoints e he).1 (hcarried.endpoints e he).2)
      hcopies hendpoints
    obtain ⟨others', hsame', hgood', hwrite', hlen'⟩ := exists_each
      (fun s hs _ _ hc hb => exists_rtcServer hc hb (hcarried.turn s hs) (hcarried.rtcServers s hs).1
        (hcarried.rtcServers s hs).2.1 (hcarried.rtcServers s hs).2.2)
      hcopies' hservers
    have hservers16 : (config.rtcServers.getD []).length ≤ 16 := by
      cases hs : config.rtcServers with
      | none => exact Nat.zero_le _
      | some servers =>
        rw [hs, Option.any_some, decide_eq_true_eq] at hcount'
        exact Nat.le_of_not_lt hcount'
    have hlength : others.length ≤ 16 := hsame.length_eq ▸ Nat.le_of_not_lt hcount
    have hlength' : others'.length ≤ 16 := hsame'.length_eq ▸ hservers16
    have hnonempty : others ≠ [] ∨ others' ≠ [] ∨ config.enableP2p = true := by
      by_cases ho : others = []
      · by_cases ho' : others' = []
        · refine .inr (.inr (Bool.not_eq_false _ ▸ fun hp2p => hsome ⟨⟨?_, ?_⟩, hp2p⟩))
          · exact List.length_eq_zero_iff.1 (hsame.length_eq.trans (ho ▸ rfl))
          · exact List.length_eq_zero_iff.1 (hsame'.length_eq.trans (ho' ▸ rfl))
        · exact .inr (.inl ho')
      · exact .inl ho
    refine ⟨⟨isOutgoing, init, receive, config.enableP2p, config.allowTcp, config.protocolV1, config.enableAec,
      config.enableNs, config.enableAgc, others, others'⟩, ⟨rfl, hinitValue, hreceiveValue, rfl, rfl, rfl, rfl, rfl, rfl,
      hsame, hsame'⟩, ?_⟩
    have hcountBytes : ∀ n, n ≤ 16 → PayloadWriter.count n = .ok [UInt8.ofNat n] := by
      intro n hn
      unfold PayloadWriter.count
      rw [if_pos (by omega)]
      rfl
    have hbit : ∀ b : Bool, [UInt8.ofNat b.toNat] = PayloadWriter.u8 b.toUInt8 := by decide
    have hflags : ∀ p2p tcp v1 aec ns agc : Bool, [UInt8.ofNat (p2p.toNat ||| tcp.toNat <<< 1 ||| v1.toNat <<< 2 |||
        aec.toNat <<< 3 ||| ns.toNat <<< 4 ||| agc.toNat <<< 5)] =
        PayloadWriter.u8 (PayloadWriter.configFlags p2p tcp v1 aec ns agc) := by decide +kernel
    refine Results.bind_ok.2 ⟨(), ?_, Results.bind_ok.2 ⟨_, hcountBytes _ hlength, Results.bind_ok.2 ⟨_,
      hcountBytes _ hlength', Results.bind_ok.2 ⟨_, hwrite, Results.bind_ok.2 ⟨_, hwrite', ?_⟩⟩⟩⟩⟩
    · exact MediaStartConfig.validate_eq_ok.2
        ⟨hinitZero, hreceiveZero, hnonempty, hlength, hlength', hgood, hgood'⟩
    · cases hout
      dsimp only
      rw [hbit, hflags, hinitBytes, hreceiveBytes, hlen, Option.getD_some, hlen']
      simp only [append_assoc]
      rfl

theorem exists_of_forall₂ {α β : Type} {Same : α → β → Prop} : ∀ {as : List α} {bs : List β},
    List.Forall₂ Same as bs → ∀ a ∈ as, ∃ b ∈ bs, Same a b
  | _, _, .nil, _, ha => by cases ha
  | _, _, .cons h hrest, a, ha => by
    rcases mem_cons.1 ha with rfl | ha
    · exact ⟨_, mem_cons_self, h⟩
    · obtain ⟨b, hb, hsame⟩ := exists_of_forall₂ hrest a ha
      exact ⟨b, mem_cons_of_mem _ hb, hsame⟩

theorem SameConfig.isCarried {config : VoiceWorkerMediaStartConfig} {isOutgoing : Bool} {value : MediaStartConfig}
    (h : SameConfig config isOutgoing value)
    (hout : PayloadWriter.mediaStartConfig value = .ok output) : config.IsCarried := by
  obtain ⟨_, hvalid, _⟩ := Results.bind_ok.1 hout
  obtain ⟨_, _, _, _, _, _, hservers⟩ := MediaStartConfig.validate_eq_ok.1 hvalid
  refine ⟨fun server hserver htcp => ?_, fun endpoint hendpoint => ?_, fun server hserver => ?_⟩
  · obtain ⟨v, hv, hsame⟩ := exists_of_forall₂ h.rtcServers server hserver
    have hinvalid := hservers v hv
    unfold RtcServer.isInvalid at hinvalid
    rw [Bool.or_eq_false_iff] at hinvalid
    rw [hsame.turn]
    rw [hsame.tcp] at htcp
    rw [htcp, Bool.true_and, Bool.not_eq_false'] at hinvalid
    exact hinvalid.2
  · obtain ⟨v, _, hsame⟩ := exists_of_forall₂ h.endpoints endpoint hendpoint
    exact ⟨hsame.ipv4.isWellFormed, hsame.ipv6.isWellFormed⟩
  · obtain ⟨v, _, hsame⟩ := exists_of_forall₂ h.rtcServers server hserver
    exact ⟨hsame.host.isWellFormed, hsame.username.isWellFormed, hsame.password.isWellFormed⟩

/-! ## Requests -/

variable {request : VoiceWorkerIpcRequest}

/-- **A request that the bridge sends and that is carried is a request that the worker takes.** -/
theorem exists_request {callId fields : List UInt8}
    (hcall : u64 request.callId = .ok callId) (hfields : fieldBytes request = .ok fields) (hcarried : request.IsCarried) :
    ∃ value, SameRequest request value ∧ requestTag value = request.tag ∧
      requestFields value = .ok (callId ++ fields) := by
  obtain ⟨call, hcallValue, rfl⟩ := exists_u64 hcall
  cases request with
  | prepareCaller id =>
    cases hfields
    obtain rfl : id = _ := hcallValue
    exact ⟨_, .prepareCaller call, rfl, by rw [append_nil]; rfl⟩
  | prepareRecipient id hash =>
    obtain rfl : id = _ := hcallValue
    obtain ⟨v, rfl, rfl⟩ := exists_fixedBytes hfields
    exact ⟨_, .prepareRecipient call v, rfl, rfl⟩
  | completeCaller id gb config =>
    obtain rfl : id = _ := hcallValue
    obtain ⟨_, hgb, hfields⟩ := Results.bind_ok.1 hfields
    obtain ⟨output, hconfig, hfields⟩ := Results.bind_ok.1 hfields
    cases hfields
    obtain ⟨v, rfl, rfl⟩ := exists_fixedBytes hgb
    obtain ⟨value, hsame, hwrite⟩ := exists_config hconfig hcarried
    exact ⟨_, .completeCaller call v hsame, rfl, Results.bind_ok.2 ⟨output, hwrite, rfl⟩⟩
  | completeRecipient id ga long config =>
    obtain rfl : id = _ := hcallValue
    obtain ⟨_, hga, hfields⟩ := Results.bind_ok.1 hfields
    obtain ⟨output, hconfig, hfields⟩ := Results.bind_ok.1 hfields
    cases hfields
    obtain ⟨v, rfl, rfl⟩ := exists_fixedBytes hga
    obtain ⟨value, hsame, hwrite⟩ := exists_config hconfig hcarried
    refine ⟨_, .completeRecipient call v (sameLong_wordsValue long) hsame, rfl, Results.bind_ok.2 ⟨output, hwrite, ?_⟩⟩
    rw [← i64le_eq (sameLong_wordsValue long), append_assoc]
    rfl
  | signal id requestId signal =>
    obtain rfl : id = _ := hcallValue
    unfold fieldBytes at hfields
    dsimp only at hfields
    split at hfields
    · cases hfields
    · rename_i hshort
      unfold VOICE_WORKER_MAX_SIGNAL_BYTES at hshort
      obtain ⟨_, hrequest, hfields⟩ := Results.bind_ok.1 hfields
      obtain ⟨_, hlength, hfields⟩ := Results.bind_ok.1 hfields
      cases hfields
      obtain ⟨request, rfl, rfl⟩ := exists_u64 hrequest
      unfold u16 at hlength
      rw [if_neg (by omega)] at hlength
      cases hlength
      have hnat : (UInt16.ofNat signal.length).toNat = signal.length :=
        UInt16.toNat_ofNat'.trans (Nat.mod_eq_of_lt (by omega))
      refine ⟨_, .signal call request signal, rfl, Results.bind_ok.2 ⟨_, PayloadWriter.bytes_eq_ok.2
        ⟨by unfold MAX_SIGNAL_BYTES; omega, by omega, rfl⟩, ?_⟩⟩
      rw [PayloadWriter.u16, hnat]
      simp only [append_assoc]
      rfl
  | hangup id =>
    cases hfields
    obtain rfl : id = _ := hcallValue
    exact ⟨_, .hangup call, rfl, by rw [append_nil]; rfl⟩
  | attachMedia id requestId =>
    obtain rfl : id = _ := hcallValue
    obtain ⟨v, rfl, rfl⟩ := exists_u64 hfields
    exact ⟨_, .attachMedia call v, rfl, rfl⟩
  | sendPcm id capability frame =>
    obtain rfl : id = _ := hcallValue
    obtain ⟨_, hcapability, hfields⟩ := Results.bind_ok.1 hfields
    obtain ⟨_, hframe, hfields⟩ := Results.bind_ok.1 hfields
    cases hfields
    obtain ⟨v, rfl, rfl⟩ := exists_fixedBytes hcapability
    obtain ⟨w, rfl, rfl⟩ := exists_fixedBytes hframe
    exact ⟨_, .sendPcm call v w, rfl, rfl⟩
  | receivePcm id capability =>
    obtain rfl : id = _ := hcallValue
    obtain ⟨v, rfl, rfl⟩ := exists_fixedBytes hfields
    exact ⟨_, .receivePcm call v, rfl, rfl⟩
  | closeMedia id capability =>
    obtain rfl : id = _ := hcallValue
    obtain ⟨v, rfl, rfl⟩ := exists_fixedBytes hfields
    exact ⟨_, .closeMedia call v, rfl, rfl⟩
  | pollEvent id =>
    cases hfields
    obtain rfl : id = _ := hcallValue
    exact ⟨_, .pollEvent call, rfl, by rw [append_nil]; rfl⟩
  | ackEvent id eventId =>
    obtain rfl : id = _ := hcallValue
    obtain ⟨v, rfl, rfl⟩ := exists_u64 hfields
    exact ⟨_, .ackEvent call v, rfl, rfl⟩

theorem SameRequest.isCarried {value : Request} (h : SameRequest request value)
    (hout : encodeRequest value = .ok output) : request.IsCarried := by
  obtain ⟨fields, hfields, _⟩ := Results.bind_ok.1 hout
  cases h with
  | completeCaller callId gb hconfig =>
    obtain ⟨bytes, hbytes, _⟩ := Results.bind_ok.1 hfields
    exact hconfig.isCarried hbytes
  | completeRecipient callId ga hlong hconfig =>
    obtain ⟨bytes, hbytes, _⟩ := Results.bind_ok.1 hfields
    exact hconfig.isCarried hbytes
  | _ => trivial

/-- **A frame of the bridge is read by the worker as the same request exactly when the request is carried.** -/
theorem request_agrees {bytes : List UInt8} (h : encodeVoiceWorkerRequest request = .ok bytes) (rest : List UInt8) :
    (∃ payload value, readFrame (bytes ++ rest) = .ok (some payload, rest) ∧ decodeRequest payload = .ok value ∧
      SameRequest request value) ↔ request.IsCarried := by
  obtain ⟨callId, hcall, h⟩ := Results.bind_ok.1 h
  obtain ⟨fields, hfields, h⟩ := Results.bind_ok.1 h
  unfold frame at h
  split at h
  · cases h
  · rename_i hlength
    rw [VOICE_WORKER_MAX_FRAME_BYTES, not_or] at hlength
    cases h
    have hframe := readFrame_append rest (Nat.le_of_not_lt hlength.1) (Nat.le_of_not_lt hlength.2)
    constructor
    · rintro ⟨payload, value, _, hdecode, hsame⟩
      exact hsame.isCarried (decodeRequest_eq_ok.1 hdecode)
    · intro hcarried
      obtain ⟨value, hsame, htag, hvalue⟩ := exists_request hcall hfields hcarried
      refine ⟨_, value, hframe, decodeRequest_eq_ok.2 (Results.bind_ok.2 ⟨_, hvalue, ?_⟩), hsame⟩
      rw [htag]
      rfl

/-! ## Responses -/

open Readers

theorem reads_takeFixed (n : Nat) :
    ReadsAs (take n) (fun bytes a => ∃ v : FixedBytes n, bytes = PayloadWriter.array v ∧ a = v.val) := by
  refine (reads_take _ n).congr (fun bytes a => ⟨?_, ?_⟩)
  · rintro ⟨rfl, hlen⟩
    exact ⟨⟨bytes, hlen⟩, rfl, rfl⟩
  · rintro ⟨v, rfl, rfl⟩
    exact ⟨rfl, v.property⟩

theorem exists_u64_of_length {bytes : List UInt8} (h : bytes.length = 8) : ∃ v, bytes = PayloadWriter.u64 v := by
  have hvalue := value_lt bytes
  rw [h] at hvalue
  have hnat : (UInt64.ofNat (Endian.value bytes)).toNat = Endian.value bytes :=
    UInt64.toNat_ofNat'.trans (Nat.mod_eq_of_lt hvalue)
  refine ⟨UInt64.ofNat (Endian.value bytes), ?_⟩
  rw [PayloadWriter.u64, hnat, big_value_of_length h]

theorem reads_takeU64 :
    ReadsAs (take 8) (fun bytes a => ∃ v : UInt64, bytes = PayloadWriter.u64 v ∧ a = PayloadWriter.u64 v) := by
  refine (reads_take _ 8).congr (fun bytes a => ⟨?_, ?_⟩)
  · rintro ⟨rfl, hlen⟩
    obtain ⟨v, hv⟩ := exists_u64_of_length hlen
    exact ⟨v, hv, hv⟩
  · rintro ⟨v, rfl, rfl⟩
    exact ⟨rfl, length_big _ _⟩

theorem reads_takeI64le :
    ReadsAs (take 8) (fun bytes a => ∃ v : Int64, bytes = PayloadWriter.i64LE v ∧ a = PayloadWriter.i64LE v) := by
  refine (reads_take _ 8).congr (fun bytes a => ⟨?_, ?_⟩)
  · rintro ⟨rfl, hlen⟩
    obtain ⟨v, hv⟩ := exists_u64_of_length (length_reverse.trans hlen)
    have hbytes : bytes = PayloadWriter.i64LE v.toInt64 := by
      rw [PayloadWriter.i64LE, UInt64.toUInt64_toInt64, ← hv, reverse_reverse]
    exact ⟨v.toInt64, hbytes, hbytes⟩
  · rintro ⟨v, rfl, rfl⟩
    exact ⟨rfl, length_reverse.trans (length_big _ _)⟩

theorem readU64_u64 (v : UInt64) : readU64 (PayloadWriter.u64 v) = v.toNat := by
  unfold readU64 PayloadWriter.u64
  rw [value_big_of_lt v.toNat_lt]

theorem readI64le_i64LE (v : Int64) : readI64le (PayloadWriter.i64LE v) = longOf v := by
  have hbound : Endian.bound 4 = 4294967296 := by decide
  have hhigh : v.toUInt64.toNat / 4294967296 < Endian.bound 4 := by
    have hlt := v.toUInt64.toNat_lt
    omega
  have hlow : v.toUInt64.toNat % 4294967296 < 4294967296 := Nat.mod_lt _ (by decide)
  have hwords : PayloadWriter.u64 v.toUInt64 =
      Endian.big 4 (v.toUInt64.toNat / 4294967296) ++ Endian.big 4 (v.toUInt64.toNat % 4294967296) := by
    rw [← big_words hlow, PayloadWriter.u64]
    congr 1
    omega
  have hlength : ∀ n, (Endian.big 4 n).reverse.length = 4 := fun n => length_reverse.trans (length_big _ _)
  have hword : UInt32.ofNat (v.toUInt64.toNat % 4294967296) = UInt32.ofNat v.toUInt64.toNat := by
    rw [← UInt32.toNat_inj, UInt32.toNat_ofNat', UInt32.toNat_ofNat']
    exact Nat.mod_mod _ _
  unfold readI64le PayloadWriter.i64LE Long.fromBits readInt32LE longOf
  rw [hwords, reverse_append, take_left' (hlength _), drop_left' (hlength _), reverse_reverse,
    reverse_reverse, value_big_of_lt (hbound ▸ hlow), value_big_of_lt hhigh, hword]

theorem reads_takeByte : ReadsAs takeByte (fun bytes a => bytes = PayloadWriter.u8 a) := by
  refine (reads_take _ 1).last.congr (fun bytes a => ⟨?_, ?_⟩)
  · rintro ⟨taken, ⟨rfl, hlen⟩, rfl⟩
    obtain ⟨x, rfl⟩ := length_eq_one_iff.1 hlen
    rfl
  · rintro rfl
    exact ⟨_, ⟨rfl, rfl⟩, rfl⟩

theorem reads_takeU16Bytes :
    ReadsAs takeU16Bytes (fun bytes a => PayloadWriter.bytes a MAX_SIGNAL_BYTES = .ok bytes) := by
  refine ((reads_take _ 2).bind (fun header => (reads_take _ (Endian.value header)).unless
    (Endian.value header > VOICE_WORKER_MAX_SIGNAL_BYTES) _)).congr (fun output value => ?_)
  rw [PayloadWriter.bytes_eq_ok]
  constructor
  · rintro ⟨header, body, _, rfl, ⟨rfl, hlen⟩, hle, rfl, hvalue⟩
    have hbound := value_lt header
    rw [hlen, ← hvalue] at hbound
    rw [← hvalue] at hle
    have hnat : (UInt16.ofNat body.length).toNat = body.length :=
      UInt16.toNat_ofNat'.trans (Nat.mod_eq_of_lt hbound)
    refine ⟨Nat.le_of_not_lt hle, Nat.le_of_lt_succ hbound, ?_⟩
    rw [PayloadWriter.u16, hnat, hvalue, big_value_of_length hlen]
  · rintro ⟨hle, hword, rfl⟩
    have hnat : (UInt16.ofNat value.length).toNat = value.length :=
      UInt16.toNat_ofNat'.trans (Nat.mod_eq_of_lt (by omega))
    have hvalue : Endian.value (PayloadWriter.u16 (UInt16.ofNat value.length)) = value.length := by
      rw [PayloadWriter.u16, hnat, value_big_of_lt (Nat.lt_succ_of_le hword)]
    refine ⟨_, _, _, rfl, ⟨rfl, length_big _ _⟩, ?_, rfl, hvalue.symm⟩
    rw [hvalue]
    exact Nat.not_lt_of_le hle

theorem reads_takeEvent (eventId : UInt64) (kind : UInt8) :
    ReadsAs (if kind = 1 then do
        let data ← takeU16Bytes
        pure (.event eventId.toNat (.outboundSignal data))
      else if kind = 2 then pure (.event eventId.toNat .nativeError)
      else throw .unavailable : ResponseReader VoiceWorkerIpcResponse)
      (fun rest answer => ∃ e, PayloadWriter.event e = .ok (PayloadWriter.u8 kind ++ rest) ∧
        answer = responseOf (.event eventId e)) := by
  by_cases h1 : kind = 1
  · rw [if_pos h1]
    subst h1
    refine reads_takeU16Bytes.last.congr (fun rest answer => ⟨?_, ?_⟩)
    · rintro ⟨data, hdata, rfl⟩
      exact ⟨.outboundSignal data, Results.bind_ok.2 ⟨rest, hdata, rfl⟩, rfl⟩
    · rintro ⟨e, he, rfl⟩
      cases e with
      | outboundSignal signal =>
        obtain ⟨_, hsignal, he⟩ := Results.bind_ok.1 he
        cases he
        exact ⟨signal, hsignal, rfl⟩
      | nativeError => cases he
  · rw [if_neg h1]
    by_cases h2 : kind = 2
    · rw [if_pos h2]
      subst h2
      refine (reads_pure _).congr (fun rest answer => ⟨?_, ?_⟩)
      · rintro ⟨rfl, rfl⟩
        exact ⟨.nativeError, rfl, rfl⟩
      · rintro ⟨e, he, rfl⟩
        cases e with
        | outboundSignal signal =>
          obtain ⟨_, _, he⟩ := Results.bind_ok.1 he
          cases he
        | nativeError =>
          cases he
          exact ⟨rfl, rfl⟩
    · rw [if_neg h2]
      refine (reads_throw _).congr (fun rest answer => ⟨False.elim, ?_⟩)
      rintro ⟨e, he, _⟩
      cases e with
      | outboundSignal signal =>
        obtain ⟨_, _, he⟩ := Results.bind_ok.1 he
        cases he
        exact h1 rfl
      | nativeError =>
        cases he
        exact h2 rfl

theorem exists_errorCode {value : UInt8} (hlow : 1 ≤ value.toNat) (hhigh : value.toNat ≤ 5) :
    ∃ code, value = PayloadWriter.errorCode code := by
  have hvalue : value.toNat = 1 ∨ value.toNat = 2 ∨ value.toNat = 3 ∨ value.toNat = 4 ∨ value.toNat = 5 := by omega
  rcases hvalue with h | h | h | h | h
  · exact ⟨.invalidRequest, UInt8.toNat_inj.1 h⟩
  · exact ⟨.busy, UInt8.toNat_inj.1 h⟩
  · exact ⟨.invalidState, UInt8.toNat_inj.1 h⟩
  · exact ⟨.crypto, UInt8.toNat_inj.1 h⟩
  · exact ⟨.mediaUnavailable, UInt8.toNat_inj.1 h⟩

def Answers (tag : UInt8) (bytes : List UInt8) (answer : VoiceWorkerIpcResponse) : Prop :=
  ∃ response, responseTag response = tag ∧ responseFields response = .ok bytes ∧ answer = responseOf response

theorem reads_plainAnswer {tag : UInt8} (response : Response) (hfields : responseFields response = .ok [])
    (htag : responseTag response = tag) (honly : ∀ r, responseTag r = tag → r = response) :
    ReadsAs (pure (responseOf response) : ResponseReader VoiceWorkerIpcResponse) (Answers tag) := by
  refine (reads_pure _).congr (fun bytes answer => ⟨?_, ?_⟩)
  · rintro ⟨rfl, rfl⟩
    exact ⟨response, htag, hfields, rfl⟩
  · rintro ⟨r, hr, hbytes, rfl⟩
    obtain rfl := honly r hr
    rw [hfields] at hbytes
    cases hbytes
    exact ⟨rfl, rfl⟩

theorem reads_fieldAnswer {α γ : Type} {tag : UInt8} {d : ResponseReader α} {enc : γ → List UInt8} {c : γ → α}
    (h : ReadsAs d (fun bytes a => ∃ v, bytes = enc v ∧ a = c v)) (make : γ → Response) {f : α → VoiceWorkerIpcResponse}
    (hfields : ∀ v, responseFields (make v) = .ok (enc v)) (htag : ∀ v, responseTag (make v) = tag)
    (honly : ∀ r, responseTag r = tag → ∃ v, r = make v) (hof : ∀ v, responseOf (make v) = f (c v)) :
    ReadsAs (d >>= fun a => pure (f a)) (Answers tag) := by
  refine h.last.congr (fun bytes answer => ⟨?_, ?_⟩)
  · rintro ⟨_, ⟨v, rfl, rfl⟩, rfl⟩
    exact ⟨make v, htag v, hfields v, (hof v).symm⟩
  · rintro ⟨r, hr, hbytes, rfl⟩
    obtain ⟨v, rfl⟩ := honly r hr
    rw [hfields] at hbytes
    cases hbytes
    exact ⟨c v, ⟨v, rfl, rfl⟩, hof v⟩

/-- **The bridge reads the fields of a response exactly as the worker writes them.** -/
theorem reads_readResponse (tag : UInt8) : ReadsAs (readResponse tag) (Answers tag) := by
  unfold readResponse
  split
  case h_1 =>
    refine reads_fieldAnswer (reads_takeFixed _) Response.callerPrepared (fun _ => rfl) (fun _ => rfl) (fun r hr => ?_)
      (fun _ => rfl)
    cases r <;> simp [responseTag] at hr
    exact ⟨_, rfl⟩
  case h_2 =>
    refine reads_fieldAnswer (reads_takeFixed _) Response.recipientPrepared (fun _ => rfl) (fun _ => rfl)
      (fun r hr => ?_) (fun _ => rfl)
    cases r <;> simp [responseTag] at hr
    exact ⟨_, rfl⟩
  case h_3 =>
    refine ((reads_takeFixed _).via (fun ga => reads_takeI64le.last)).congr (fun bytes answer => ⟨?_, ?_⟩)
    · rintro ⟨ga, _, rfl, _, ⟨fingerprint, rfl, rfl⟩, rfl⟩
      exact ⟨.callerCompleted ga fingerprint, rfl, rfl, by rw [readI64le_i64LE]; rfl⟩
    · rintro ⟨r, hr, hbytes, rfl⟩
      cases r <;> simp [responseTag] at hr
      cases hbytes
      exact ⟨_, _, rfl, _, ⟨_, rfl, rfl⟩, by rw [readI64le_i64LE]; rfl⟩
  case h_4 =>
    refine reads_fieldAnswer reads_takeI64le Response.recipientCompleted (fun _ => rfl) (fun _ => rfl) (fun r hr => ?_)
      (fun v => by rw [readI64le_i64LE]; rfl)
    cases r <;> simp [responseTag] at hr
    exact ⟨_, rfl⟩
  case h_5 =>
    refine reads_fieldAnswer reads_takeU64 Response.signalForwarded (fun _ => rfl) (fun _ => rfl) (fun r hr => ?_)
      (fun v => by rw [readU64_u64]; rfl)
    cases r <;> simp [responseTag] at hr
    exact ⟨_, rfl⟩
  case h_6 =>
    refine reads_plainAnswer .hungUp rfl rfl (fun r hr => ?_)
    cases r <;> simp [responseTag] at hr
    rfl
  case h_7 =>
    refine (reads_takeU64.via (fun requestId => (reads_takeFixed _).last)).congr (fun bytes answer => ⟨?_, ?_⟩)
    · rintro ⟨requestId, _, rfl, _, ⟨capability, rfl, rfl⟩, rfl⟩
      exact ⟨.mediaAttached requestId capability, rfl, rfl, by rw [readU64_u64]; rfl⟩
    · rintro ⟨r, hr, hbytes, rfl⟩
      cases r <;> simp [responseTag] at hr
      cases hbytes
      exact ⟨_, _, rfl, _, ⟨_, rfl, rfl⟩, by rw [readU64_u64]; rfl⟩
  case h_8 =>
    refine reads_plainAnswer .pcmSent rfl rfl (fun r hr => ?_)
    cases r <;> simp [responseTag] at hr
    rfl
  case h_9 =>
    refine reads_fieldAnswer (reads_takeFixed PCM_FRAME_BYTES) Response.pcmReceived (fun _ => rfl) (fun _ => rfl)
      (fun r hr => ?_) (fun _ => rfl)
    cases r <;> simp [responseTag] at hr
    exact ⟨_, rfl⟩
  case h_10 =>
    refine reads_plainAnswer .pcmPending rfl rfl (fun r hr => ?_)
    cases r <;> simp [responseTag] at hr
    rfl
  case h_11 =>
    refine reads_plainAnswer .mediaClosed rfl rfl (fun r hr => ?_)
    cases r <;> simp [responseTag] at hr
    rfl
  case h_12 =>
    refine (reads_takeU64.via (fun eventId => reads_takeByte.field (fun kind =>
      readU64_u64 eventId ▸ reads_takeEvent eventId kind))).congr (fun bytes answer => ⟨?_, ?_⟩)
    · rintro ⟨eventId, _, rfl, kind, rest, rfl, e, he, rfl⟩
      exact ⟨.event eventId e, rfl, Results.bind_ok.2 ⟨_, he, rfl⟩, rfl⟩
    · rintro ⟨r, hr, hbytes, rfl⟩
      cases r <;> simp [responseTag] at hr
      rename_i eventId e
      obtain ⟨output, he, hbytes⟩ := Results.bind_ok.1 hbytes
      cases hbytes
      obtain ⟨kind, rest, rfl⟩ : ∃ kind rest, output = PayloadWriter.u8 kind ++ rest := by
        cases e with
        | outboundSignal signal =>
          obtain ⟨rest, _, he⟩ := Results.bind_ok.1 he
          cases he
          exact ⟨1, rest, rfl⟩
        | nativeError =>
          cases he
          exact ⟨2, [], rfl⟩
      exact ⟨eventId, _, rfl, kind, rest, rfl, e, he, rfl⟩
  case h_13 =>
    refine reads_plainAnswer .eventPending rfl rfl (fun r hr => ?_)
    cases r <;> simp [responseTag] at hr
    rfl
  case h_14 =>
    refine reads_fieldAnswer reads_takeU64 Response.eventAcknowledged (fun _ => rfl) (fun _ => rfl) (fun r hr => ?_)
      (fun v => by rw [readU64_u64]; rfl)
    cases r <;> simp [responseTag] at hr
    exact ⟨_, rfl⟩
  case h_15 =>
    refine (reads_takeByte.field (fun errorCode => (reads_pure _).unless _ _)).congr (fun bytes answer => ⟨?_, ?_⟩)
    · rintro ⟨errorCode, _, rfl, hrange, rfl, rfl⟩
      have hlow : 1 ≤ errorCode.toNat := by omega
      have hhigh : errorCode.toNat ≤ 5 := by omega
      obtain ⟨code, rfl⟩ := exists_errorCode hlow hhigh
      exact ⟨.error code, rfl, rfl, rfl⟩
    · rintro ⟨r, hr, hbytes, rfl⟩
      cases r <;> simp [responseTag] at hr
      rename_i code
      cases hbytes
      refine ⟨PayloadWriter.errorCode code, [], rfl, ?_, rfl, rfl⟩
      cases code <;> decide
  case h_16 =>
    refine (reads_throw _).congr (fun bytes answer => ⟨False.elim, ?_⟩)
    rintro ⟨r, hr, _⟩
    cases r <;> simp_all [responseTag]

/-- **The bridge reads exactly the encodings of the worker's responses, as the same responses.** -/
theorem decodeVoiceWorkerResponse_eq_ok {payload : List UInt8} {answer : VoiceWorkerIpcResponse} :
    decodeVoiceWorkerResponse payload = .ok answer ↔
      ∃ response, encodeResponse response = .ok payload ∧ answer = responseOf response := by
  unfold decodeVoiceWorkerResponse VOICE_WORKER_MAX_FRAME_BYTES
  constructor
  · intro h
    split at h
    · cases h
    · split at h
      · rename_i version tag input _
        split at h
        · cases h
        · rename_i hversion
          rw [not_not] at hversion
          obtain ⟨response, htag, hfields, hof⟩ := ((reads_readResponse tag).all .unavailable input answer).1 h
          refine ⟨response, Results.bind_ok.2 ⟨input, hfields, ?_⟩, hof⟩
          rw [htag, hversion]
          rfl
      · cases h
  · rintro ⟨response, hencode, rfl⟩
    obtain ⟨fields, hfields, h⟩ := Results.bind_ok.1 hencode
    cases h
    have hlen := length_responseFields hfields
    rw [if_neg (by rw [length_cons, length_cons]; omega)]
    dsimp only
    rw [if_neg (fun h => h rfl)]
    exact ((reads_readResponse _).all .unavailable fields _).2 ⟨response, rfl, hfields, rfl⟩

/-- **The two ends agree**: the worker reads a frame of the bridge as the same request exactly when the request is carried;
the bridge reads each response of the worker as the same response; the worker reads back what it writes; and no decoder
accepts anything but an encoding. -/
theorem voiceIpc_agrees (request : VoiceWorkerIpcRequest) :
    (∀ bytes rest, encodeVoiceWorkerRequest request = .ok bytes →
      ((∃ payload value, readFrame (bytes ++ rest) = .ok (some payload, rest) ∧ decodeRequest payload = .ok value ∧
        SameRequest request value) ↔ request.IsCarried)) ∧
    (∀ response payload, encodeResponse response = .ok payload →
      decodeVoiceWorkerResponse payload = .ok (responseOf response)) ∧
    (∀ value payload, encodeRequest value = .ok payload → decodeRequest payload = .ok value) ∧
    (∀ response payload, encodeResponse response = .ok payload → decodeResponse payload = .ok response) ∧
    (∀ payload value, decodeRequest payload = .ok value → encodeRequest value = .ok payload) ∧
    (∀ payload response, decodeResponse payload = .ok response → encodeResponse response = .ok payload) ∧
    (∀ payload answer, decodeVoiceWorkerResponse payload = .ok answer →
      ∃ response, encodeResponse response = .ok payload ∧ answer = responseOf response) := by
  refine ⟨?_, ?_, ?_, ?_, ?_, ?_, ?_⟩
  · exact fun _ rest h => request_agrees h rest
  · exact fun response _ h => decodeVoiceWorkerResponse_eq_ok.2 ⟨response, h, rfl⟩
  · exact fun _ _ h => decodeRequest_eq_ok.2 h
  · exact fun _ _ h => decodeResponse_eq_ok.2 h
  · exact fun _ _ h => decodeRequest_eq_ok.1 h
  · exact fun _ _ h => decodeResponse_eq_ok.1 h
  · exact fun _ _ h => decodeVoiceWorkerResponse_eq_ok.1 h

def tcpOnlyRequest : VoiceWorkerIpcRequest :=
  .completeCaller 1 (List.replicate 256 0)
    { initializationTimeoutMs := .integer 10000, receiveTimeoutMs := .integer 10000, enableP2p := false
      allowTcp := true, protocolV1 := false, enableAec := false, enableNs := false, enableAgc := false
      endpoints := []
      rtcServers := some [{ id := .integer 1, host := [104], port := .integer 443, username := [], password := []
                            turn := false, tcp := true }] }

/-- The bridge sends it, and the worker does not take it. -/
theorem tcpOnlyRequest_refused : ¬ ∀ request bytes, encodeVoiceWorkerRequest request = .ok bytes →
    ∃ payload value, readFrame bytes = .ok (some payload, []) ∧ decodeRequest payload = .ok value ∧
      SameRequest request value := by
  intro h
  have hsent : (encodeVoiceWorkerRequest tcpOnlyRequest).toOption.isSome = true := by decide +kernel
  cases hencode : encodeVoiceWorkerRequest tcpOnlyRequest with
  | error e =>
    rw [hencode] at hsent
    cases hsent
  | ok bytes =>
    have hread := h tcpOnlyRequest bytes hencode
    rw [← append_nil bytes] at hread
    have hcarried : tcpOnlyRequest.IsCarried := (request_agrees hencode []).1 hread
    have hturn := hcarried.turn _ mem_cons_self rfl
    cases hturn

end Client
end VoiceIpc
end Crossgram
