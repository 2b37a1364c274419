import Crossgram.VoiceIpc
/-!
# VoiceIpcCodec — what the voice worker reads (packages/voice-worker/src/ipc.rs)

`decodeRequest_eq_ok` and `decodeResponse_eq_ok`: the decoders accept the encoding of a value, as that value, and nothing
else.  Each field, then each list of fields, then each tag is read exactly as it is written.
-/
namespace Crossgram
namespace VoiceIpc

open Endian List

/-! ## A start configuration is read as it is written -/

theorem MediaStartConfig.validate_eq_ok {config : MediaStartConfig} :
    config.validate = .ok () ↔ config.initializationTimeoutMs ≠ 0 ∧ config.receiveTimeoutMs ≠ 0 ∧
      (config.endpoints ≠ [] ∨ config.rtcServers ≠ [] ∨ config.enableP2p = true) ∧
      config.endpoints.length ≤ MAX_ENDPOINTS ∧ config.rtcServers.length ≤ MAX_RTC_SERVERS ∧
      (∀ endpoint ∈ config.endpoints, endpoint.isInvalid = false) ∧
      (∀ server ∈ config.rtcServers, server.isInvalid = false) := by
  unfold MediaStartConfig.validate
  constructor
  · intro h
    split at h
    · cases h
    · rename_i hheader
      split at h
      · cases h
      · rename_i hendpoints
        split at h
        · cases h
        · rename_i hservers
          simp only [Bool.or_eq_true, Bool.and_eq_true, beq_iff_eq, List.isEmpty_iff, Bool.not_eq_true',
            decide_eq_true_eq, not_or, not_and, Bool.not_eq_false] at hheader
          rw [Bool.not_eq_true, List.any_eq_false] at hendpoints hservers
          obtain ⟨⟨⟨⟨hinit, hreceive⟩, hsome⟩, hcount⟩, hcount'⟩ := hheader
          refine ⟨hinit, hreceive, ?_, by omega, by omega, fun e he => Bool.eq_false_iff.2 (hendpoints e he),
            fun e he => Bool.eq_false_iff.2 (hservers e he)⟩
          by_cases he : config.endpoints = []
          · by_cases hs : config.rtcServers = []
            · exact .inr (.inr (hsome ⟨he, hs⟩))
            · exact .inr (.inl hs)
          · exact .inl he
  · rintro ⟨hinit, hreceive, hsome, hcount, hcount', hendpoints, hservers⟩
    rw [if_neg, if_neg, if_neg]
    · rw [Bool.not_eq_true, List.any_eq_false]
      exact fun e he => Bool.eq_false_iff.1 (hservers e he)
    · rw [Bool.not_eq_true, List.any_eq_false]
      exact fun e he => Bool.eq_false_iff.1 (hendpoints e he)
    · simp only [Bool.or_eq_true, Bool.and_eq_true, beq_iff_eq, List.isEmpty_iff, Bool.not_eq_true',
        decide_eq_true_eq, not_or, not_and, Bool.not_eq_false]
      refine ⟨⟨⟨⟨hinit, hreceive⟩, fun hnone => ?_⟩, by omega⟩, by omega⟩
      exact (hsome.resolve_left (fun h => h hnone.1)).resolve_left (fun h => h hnone.2)

namespace PayloadReader

open Readers

theorem reads_endpointKind :
    ReadsAs endpointKind (fun bytes kind => bytes = PayloadWriter.u8 (PayloadWriter.endpointKind kind)) := by
  have hkind : ∀ value, ReadsAs (endpointKindOf value)
      (fun rest kind => rest = [] ∧ value = PayloadWriter.endpointKind kind) := by
    intro value
    unfold endpointKindOf
    split
    case h_5 h0 h1 h2 h3 =>
      refine (reads_throw _).congr (fun rest kind => ⟨False.elim, fun h => ?_⟩)
      cases kind with
      | inet => exact h0 h.2
      | lan => exact h1 h.2
      | udpRelay => exact h2 h.2
      | tcpRelay => exact h3 h.2
    all_goals
      refine (reads_pure _).congr (fun rest kind => and_congr_right (fun _ => ?_))
      cases kind <;> decide
  refine (reads_u8.field hkind).congr (fun bytes kind => ⟨?_, ?_⟩)
  · rintro ⟨_, _, rfl, rfl, rfl⟩
    rfl
  · rintro rfl
    exact ⟨_, [], rfl, rfl, rfl⟩

theorem reads_endpoint : ReadsAs endpoint (fun bytes e => PayloadWriter.endpoint e = .ok bytes) := by
  refine (reads_i64.field (fun id => reads_u16.field (fun port => reads_endpointKind.field (fun kind =>
    (reads_array 16).field (fun peerTag => reads_string.bind (fun ipv4 => reads_string.last)))))).congr
    (fun bytes e => ⟨?_, ?_⟩)
  · rintro ⟨id, _, rfl, port, _, rfl, kind, _, rfl, peerTag, _, rfl, _, _, ipv4, rfl, hipv4, ipv6, hipv6, rfl⟩
    simp only [PayloadWriter.endpoint, hipv4, hipv6]
    rfl
  · intro h
    obtain ⟨ipv4, hipv4, h⟩ := Results.bind_ok.1 h
    obtain ⟨ipv6, hipv6, h⟩ := Results.bind_ok.1 h
    cases h
    exact ⟨_, _, rfl, _, _, rfl, _, _, rfl, _, _, rfl, _, _, _, rfl, hipv4, _, hipv6, rfl⟩

theorem serverFlags_bits : ∀ isTurn isTcp : Bool, (PayloadWriter.serverFlags isTurn isTcp &&& ~~~3) = 0 ∧
    (PayloadWriter.serverFlags isTurn isTcp &&& 1 != 0) = isTurn ∧
    (PayloadWriter.serverFlags isTurn isTcp &&& 2 != 0) = isTcp := by decide

theorem serverFlags_of_bits : ∀ i : Fin 256, (UInt8.ofFin i &&& ~~~3) = 0 →
    PayloadWriter.serverFlags (UInt8.ofFin i &&& 1 != 0) (UInt8.ofFin i &&& 2 != 0) = UInt8.ofFin i := by decide +kernel

theorem reads_rtcServer : ReadsAs rtcServer (fun bytes server => PayloadWriter.rtcServer server = .ok bytes) := by
  refine (reads_u8.field (fun id => reads_u16.field (fun port => reads_u8.field (fun flags =>
    (reads_string.bind (fun host => reads_string.bind (fun username => reads_string.last))).unless _ _)))).congr
    (fun bytes server => ⟨?_, ?_⟩)
  · rintro ⟨id, _, rfl, port, _, rfl, flags, _, rfl, hflags, _, _, host, rfl, hhost, _, _, username, rfl, husername,
      password, hpassword, rfl⟩
    rw [bne_iff_ne, not_not] at hflags
    have hbits : PayloadWriter.serverFlags (flags &&& 1 != 0) (flags &&& 2 != 0) = flags :=
      serverFlags_of_bits flags.toFin hflags
    simp only [PayloadWriter.rtcServer, hhost, husername, hpassword, hbits]
    rfl
  · intro h
    obtain ⟨host, hhost, h⟩ := Results.bind_ok.1 h
    obtain ⟨username, husername, h⟩ := Results.bind_ok.1 h
    obtain ⟨password, hpassword, h⟩ := Results.bind_ok.1 h
    cases h
    obtain ⟨hflags, hturn, htcp⟩ := serverFlags_bits server.isTurn server.isTcp
    refine ⟨_, _, rfl, _, _, rfl, _, _, rfl, by rw [bne_iff_ne, not_not]; exact hflags, _, _, _, rfl, hhost, _, _, _, rfl,
      husername, _, hpassword, ?_⟩
    rw [hturn, htcp]

theorem configFlags_bits : ∀ p2p tcp v1 aec ns agc : Bool,
    (PayloadWriter.configFlags p2p tcp v1 aec ns agc &&& ~~~0x3f) = 0 ∧
    (PayloadWriter.configFlags p2p tcp v1 aec ns agc &&& 1 != 0) = p2p ∧
    (PayloadWriter.configFlags p2p tcp v1 aec ns agc &&& 2 != 0) = tcp ∧
    (PayloadWriter.configFlags p2p tcp v1 aec ns agc &&& 4 != 0) = v1 ∧
    (PayloadWriter.configFlags p2p tcp v1 aec ns agc &&& 8 != 0) = aec ∧
    (PayloadWriter.configFlags p2p tcp v1 aec ns agc &&& 16 != 0) = ns ∧
    (PayloadWriter.configFlags p2p tcp v1 aec ns agc &&& 32 != 0) = agc := by decide +kernel

theorem configFlags_of_bits : ∀ i : Fin 256, (UInt8.ofFin i &&& ~~~0x3f) = 0 →
    PayloadWriter.configFlags (UInt8.ofFin i &&& 1 != 0) (UInt8.ofFin i &&& 2 != 0) (UInt8.ofFin i &&& 4 != 0)
      (UInt8.ofFin i &&& 8 != 0) (UInt8.ofFin i &&& 16 != 0) (UInt8.ofFin i &&& 32 != 0) = UInt8.ofFin i := by
  decide +kernel

theorem toUInt8_of_bit : ∀ i : Fin 256, ¬ UInt8.ofFin i > 1 → (UInt8.ofFin i == 1).toUInt8 = UInt8.ofFin i := by
  decide +kernel

theorem each_eq_ok {α : Type} {write : α → Except IpcError (List UInt8)} : ∀ {as : List α} {bytes : List UInt8},
    Each (fun bytes a => write a = .ok bytes) bytes as ↔ PayloadWriter.each write as = .ok bytes
  | [], bytes => by
    constructor
    · rintro ⟨⟩
      rfl
    · intro h
      cases h
      exact .nil
  | a :: as, bytes => by
    constructor
    · intro h
      cases h with
      | cons hfirst hrest => exact Results.bind_ok.2 ⟨_, hfirst, Results.bind_ok.2 ⟨_, each_eq_ok.1 hrest, rfl⟩⟩
    · intro h
      obtain ⟨first, hfirst, h⟩ := Results.bind_ok.1 h
      obtain ⟨rest, hrest, h⟩ := Results.bind_ok.1 h
      cases h
      exact .cons hfirst (each_eq_ok.2 hrest)

theorem count_eq_ok {length : Nat} {output : List UInt8} :
    PayloadWriter.count length = .ok output ↔ ∃ n : UInt8, n.toNat = length ∧ output = PayloadWriter.u8 n := by
  unfold PayloadWriter.count
  constructor
  · intro h
    split at h
    · rename_i hlen
      cases h
      exact ⟨_, UInt8.toNat_ofNat'.trans (Nat.mod_eq_of_lt hlen), rfl⟩
    · cases h
  · rintro ⟨n, rfl, rfl⟩
    rw [if_pos n.toNat_lt, UInt8.ofNat_toNat]

/-- **A start configuration is read exactly as it is written.** -/
theorem reads_mediaStartConfig :
    ReadsAs mediaStartConfig (fun bytes config => PayloadWriter.mediaStartConfig config = .ok bytes) := by
  refine (reads_u8.field (fun isOutgoing => (reads_u32.field (fun init => reads_u32.field (fun receive =>
    reads_u8.field (fun flags => (reads_u8.field (fun endpointCount => reads_u8.field (fun rtcServerCount =>
      ((reads_times reads_endpoint _).bind (fun endpoints => (reads_times reads_rtcServer _).bind (fun rtcServers =>
        (reads_check _).last))).unless _ _))).unless _ _)))).unless _ _)).congr (fun bytes config => ⟨?_, ?_⟩)
  · rintro ⟨isOutgoing, _, rfl, hbit, init, _, rfl, receive, _, rfl, flags, _, rfl, hflags, endpointCount, _, rfl,
      rtcServerCount, _, rfl, hcounts, _, _, endpoints, rfl, ⟨hlen, hendpoints⟩, _, _, rtcServers, rfl,
      ⟨hlen', hservers⟩, _, ⟨rfl, hvalid⟩, rfl⟩
    rw [bne_iff_ne, not_not] at hflags
    have hbits : PayloadWriter.configFlags (flags &&& 1 != 0) (flags &&& 2 != 0) (flags &&& 4 != 0) (flags &&& 8 != 0)
        (flags &&& 16 != 0) (flags &&& 32 != 0) = flags := configFlags_of_bits flags.toFin hflags
    have hout : (isOutgoing == 1).toUInt8 = isOutgoing := toUInt8_of_bit isOutgoing.toFin hbit
    refine Results.bind_ok.2 ⟨(), hvalid, Results.bind_ok.2 ⟨_, count_eq_ok.2 ⟨endpointCount, hlen.symm, rfl⟩,
      Results.bind_ok.2 ⟨_, count_eq_ok.2 ⟨rtcServerCount, hlen'.symm, rfl⟩, Results.bind_ok.2 ⟨_, each_eq_ok.1 hendpoints,
      Results.bind_ok.2 ⟨_, each_eq_ok.1 hservers, ?_⟩⟩⟩⟩⟩
    dsimp only
    rw [append_nil, hbits, hout]
    rfl
  · intro h
    obtain ⟨_, hvalid, h⟩ := Results.bind_ok.1 h
    obtain ⟨_, hcount, h⟩ := Results.bind_ok.1 h
    obtain ⟨_, hcount', h⟩ := Results.bind_ok.1 h
    obtain ⟨_, hendpoints, h⟩ := Results.bind_ok.1 h
    obtain ⟨_, hservers, h⟩ := Results.bind_ok.1 h
    obtain ⟨n, hn, rfl⟩ := count_eq_ok.1 hcount
    obtain ⟨n', hn', rfl⟩ := count_eq_ok.1 hcount'
    cases h
    obtain ⟨_, _, hsome, hle, hle', _, _⟩ := MediaStartConfig.validate_eq_ok.1 hvalid
    obtain ⟨hflags, hp2p, htcp, hv1, haec, hns, hagc⟩ := configFlags_bits config.enableP2p config.allowTcp
      config.protocolV1 config.enableAec config.enableNs config.enableAgc
    have hbit : ∀ b : Bool, ¬ b.toUInt8 > 1 ∧ (b.toUInt8 == 1) = b := by decide
    refine ⟨_, _, rfl, (hbit _).1, _, _, rfl, _, _, rfl, _, _, rfl, by rw [bne_iff_ne, not_not]; exact hflags, n, _, rfl,
      n', _, rfl, ?_, _, _, _, rfl, ⟨hn.symm, each_eq_ok.2 hendpoints⟩, _, _, _, (append_nil _).symm,
      ⟨hn'.symm, each_eq_ok.2 hservers⟩, (), ⟨rfl, ?_⟩, ?_⟩
    · rw [Bool.not_eq_true, Bool.or_eq_false_iff, Bool.or_eq_false_iff, decide_eq_false_iff_not, decide_eq_false_iff_not]
      refine ⟨⟨by omega, by omega⟩, ?_⟩
      rw [Bool.eq_false_iff, ne_eq, Bool.and_eq_true, Bool.and_eq_true, beq_iff_eq, beq_iff_eq, beq_iff_eq]
      rintro ⟨⟨rfl, rfl⟩, hzero⟩
      rw [hzero] at hp2p
      have hone := (hsome.resolve_left (fun h => h (length_eq_zero_iff.1 hn.symm))).resolve_left
        (fun h => h (length_eq_zero_iff.1 hn'.symm))
      rw [hone] at hp2p
      exact absurd hp2p (by decide)
    · rw [(hbit _).2, hp2p, htcp, hv1, haec, hns, hagc]
      exact hvalid
    · rw [(hbit _).2, hp2p, htcp, hv1, haec, hns, hagc]

theorem reads_event : ReadsAs event (fun bytes e => PayloadWriter.event e = .ok bytes) := by
  have hkind : ∀ kind, ReadsAs (eventOf kind)
      (fun rest e => PayloadWriter.event e = .ok (PayloadWriter.u8 kind ++ rest)) := by
    intro kind
    unfold eventOf
    split
    case h_1 =>
      refine (reads_bytes (by decide)).last.congr (fun rest e => ⟨?_, fun h => ?_⟩)
      · rintro ⟨signal, hsignal, rfl⟩
        exact Results.bind_ok.2 ⟨rest, hsignal, rfl⟩
      · cases e with
        | outboundSignal signal =>
          obtain ⟨output, hsignal, h⟩ := Results.bind_ok.1 h
          cases h
          exact ⟨signal, hsignal, rfl⟩
        | nativeError => cases h
    case h_2 =>
      refine (reads_pure _).congr (fun rest e => ⟨?_, fun h => ?_⟩)
      · rintro ⟨rfl, rfl⟩
        rfl
      · cases e with
        | outboundSignal signal =>
          obtain ⟨output, _, h⟩ := Results.bind_ok.1 h
          cases h
        | nativeError =>
          cases h
          exact ⟨rfl, rfl⟩
    case h_3 h1 h2 =>
      refine (reads_throw _).congr (fun rest e => ⟨False.elim, fun h => ?_⟩)
      cases e with
      | outboundSignal signal =>
        obtain ⟨output, _, h⟩ := Results.bind_ok.1 h
        cases h
        exact h1 rfl
      | nativeError =>
        cases h
        exact h2 rfl
  refine (reads_u8.field hkind).congr (fun output e => ⟨?_, fun h => ?_⟩)
  · rintro ⟨_, _, rfl, h⟩
    exact h
  · cases e with
    | outboundSignal signal =>
      obtain ⟨rest, _, hrest⟩ := Results.bind_ok.1 h
      cases hrest
      exact ⟨1, rest, rfl, h⟩
    | nativeError =>
      cases h
      exact ⟨2, [], rfl, rfl⟩

theorem reads_decodeError (value : UInt8) :
    ReadsAs (decodeError value) (fun rest code => rest = [] ∧ value = PayloadWriter.errorCode code) := by
  unfold decodeError
  split
  case h_6 h1 h2 h3 h4 h5 =>
    refine (reads_throw _).congr (fun rest code => ⟨False.elim, fun h => ?_⟩)
    cases code with
    | invalidRequest => exact h1 h.2
    | busy => exact h2 h.2
    | invalidState => exact h3 h.2
    | crypto => exact h4 h.2
    | mediaUnavailable => exact h5 h.2
  all_goals
    refine (reads_pure _).congr (fun rest code => and_congr_right (fun _ => ?_))
    cases code <;> decide

end PayloadReader

/-! ## A payload is read as it is written -/

open Readers PayloadReader in
/-- **The fields of a request are read exactly as they are written.** -/
theorem reads_readRequest (tag : UInt8) :
    ReadsAs (readRequest tag) (fun bytes request => requestTag request = tag ∧ requestFields request = .ok bytes) := by
  unfold readRequest
  split
  case h_1 =>
    refine reads_u64.last.congr (fun bytes request => ⟨?_, ?_⟩)
    · rintro ⟨callId, rfl, rfl⟩
      exact ⟨rfl, rfl⟩
    · rintro ⟨htag, h⟩
      cases request <;> simp [requestTag] at htag
      cases h
      exact ⟨_, rfl, rfl⟩
  case h_2 =>
    refine (reads_u64.field (fun callId => (reads_array _).last)).congr (fun bytes request => ⟨?_, ?_⟩)
    · rintro ⟨callId, _, rfl, gaHash, rfl, rfl⟩
      exact ⟨rfl, rfl⟩
    · rintro ⟨htag, h⟩
      cases request <;> simp [requestTag] at htag
      cases h
      exact ⟨_, _, rfl, _, rfl, rfl⟩
  case h_3 =>
    refine (reads_u64.field (fun callId => (reads_array _).field (fun gb => reads_mediaStartConfig.last))).congr
      (fun bytes request => ⟨?_, ?_⟩)
    · rintro ⟨callId, _, rfl, gb, _, rfl, config, hconfig, rfl⟩
      exact ⟨rfl, Results.bind_ok.2 ⟨_, hconfig, rfl⟩⟩
    · rintro ⟨htag, h⟩
      cases request <;> simp [requestTag] at htag
      obtain ⟨_, hconfig, h⟩ := Results.bind_ok.1 h
      cases h
      exact ⟨_, _, rfl, _, _, rfl, _, hconfig, rfl⟩
  case h_4 =>
    refine (reads_u64.field (fun callId => (reads_array _).field (fun ga => reads_i64LE.field (fun fingerprint =>
      reads_mediaStartConfig.last)))).congr (fun bytes request => ⟨?_, ?_⟩)
    · rintro ⟨callId, _, rfl, ga, _, rfl, fingerprint, _, rfl, config, hconfig, rfl⟩
      exact ⟨rfl, Results.bind_ok.2 ⟨_, hconfig, rfl⟩⟩
    · rintro ⟨htag, h⟩
      cases request <;> simp [requestTag] at htag
      obtain ⟨_, hconfig, h⟩ := Results.bind_ok.1 h
      cases h
      exact ⟨_, _, rfl, _, _, rfl, _, _, rfl, _, hconfig, rfl⟩
  case h_5 =>
    refine (reads_u64.field (fun callId => reads_u64.field (fun requestId => (reads_bytes (by decide)).last))).congr
      (fun bytes request => ⟨?_, ?_⟩)
    · rintro ⟨callId, _, rfl, requestId, _, rfl, signal, hsignal, rfl⟩
      exact ⟨rfl, Results.bind_ok.2 ⟨_, hsignal, rfl⟩⟩
    · rintro ⟨htag, h⟩
      cases request <;> simp [requestTag] at htag
      obtain ⟨_, hsignal, h⟩ := Results.bind_ok.1 h
      cases h
      exact ⟨_, _, rfl, _, _, rfl, _, hsignal, rfl⟩
  case h_6 =>
    refine reads_u64.last.congr (fun bytes request => ⟨?_, ?_⟩)
    · rintro ⟨callId, rfl, rfl⟩
      exact ⟨rfl, rfl⟩
    · rintro ⟨htag, h⟩
      cases request <;> simp [requestTag] at htag
      cases h
      exact ⟨_, rfl, rfl⟩
  case h_7 =>
    refine (reads_u64.field (fun callId => reads_u64.last)).congr (fun bytes request => ⟨?_, ?_⟩)
    · rintro ⟨callId, _, rfl, requestId, rfl, rfl⟩
      exact ⟨rfl, rfl⟩
    · rintro ⟨htag, h⟩
      cases request <;> simp [requestTag] at htag
      cases h
      exact ⟨_, _, rfl, _, rfl, rfl⟩
  case h_8 =>
    refine (reads_u64.field (fun callId => (reads_array _).field (fun capability => (reads_array _).last))).congr
      (fun bytes request => ⟨?_, ?_⟩)
    · rintro ⟨callId, _, rfl, capability, _, rfl, frame, rfl, rfl⟩
      exact ⟨rfl, rfl⟩
    · rintro ⟨htag, h⟩
      cases request <;> simp [requestTag] at htag
      cases h
      exact ⟨_, _, rfl, _, _, rfl, _, rfl, rfl⟩
  case h_9 =>
    refine (reads_u64.field (fun callId => (reads_array _).last)).congr (fun bytes request => ⟨?_, ?_⟩)
    · rintro ⟨callId, _, rfl, capability, rfl, rfl⟩
      exact ⟨rfl, rfl⟩
    · rintro ⟨htag, h⟩
      cases request <;> simp [requestTag] at htag
      cases h
      exact ⟨_, _, rfl, _, rfl, rfl⟩
  case h_10 =>
    refine (reads_u64.field (fun callId => (reads_array _).last)).congr (fun bytes request => ⟨?_, ?_⟩)
    · rintro ⟨callId, _, rfl, capability, rfl, rfl⟩
      exact ⟨rfl, rfl⟩
    · rintro ⟨htag, h⟩
      cases request <;> simp [requestTag] at htag
      cases h
      exact ⟨_, _, rfl, _, rfl, rfl⟩
  case h_11 =>
    refine reads_u64.last.congr (fun bytes request => ⟨?_, ?_⟩)
    · rintro ⟨callId, rfl, rfl⟩
      exact ⟨rfl, rfl⟩
    · rintro ⟨htag, h⟩
      cases request <;> simp [requestTag] at htag
      cases h
      exact ⟨_, rfl, rfl⟩
  case h_12 =>
    refine (reads_u64.field (fun callId => reads_u64.last)).congr (fun bytes request => ⟨?_, ?_⟩)
    · rintro ⟨callId, _, rfl, eventId, rfl, rfl⟩
      exact ⟨rfl, rfl⟩
    · rintro ⟨htag, h⟩
      cases request <;> simp [requestTag] at htag
      cases h
      exact ⟨_, _, rfl, _, rfl, rfl⟩
  case h_13 =>
    refine (reads_throw _).congr (fun bytes request => ⟨False.elim, ?_⟩)
    rintro ⟨htag, _⟩
    cases request <;> simp_all [requestTag]

variable {response : Response}

open Readers in
theorem reads_plainResponse {tag : UInt8} (hfields : responseFields response = .ok [])
    (htag : responseTag response = tag) (honly : ∀ r, responseTag r = tag → r = response) :
    ReadsAs (pure response : PayloadReader Response)
      (fun bytes r => responseTag r = tag ∧ responseFields r = .ok bytes) := by
  refine (reads_pure response).congr (fun bytes r => ⟨?_, ?_⟩)
  · rintro ⟨rfl, rfl⟩
    exact ⟨htag, hfields⟩
  · rintro ⟨hr, h⟩
    obtain rfl := honly r hr
    rw [hfields] at h
    cases h
    exact ⟨rfl, rfl⟩

variable {α : Type}

open Readers in
theorem reads_fieldResponse {tag : UInt8} {d : PayloadReader α} {enc : α → List UInt8} {make : α → Response}
    (h : ReadsAs d (fun bytes a => bytes = enc a)) (hfields : ∀ a, responseFields (make a) = .ok (enc a))
    (htag : ∀ a, responseTag (make a) = tag) (honly : ∀ r, responseTag r = tag → ∃ a, r = make a) :
    ReadsAs (d >>= fun a => pure (make a)) (fun bytes r => responseTag r = tag ∧ responseFields r = .ok bytes) := by
  refine h.last.congr (fun bytes r => ⟨?_, ?_⟩)
  · rintro ⟨a, rfl, rfl⟩
    exact ⟨htag a, hfields a⟩
  · rintro ⟨hr, hbytes⟩
    obtain ⟨a, rfl⟩ := honly r hr
    rw [hfields] at hbytes
    cases hbytes
    exact ⟨a, rfl, rfl⟩

open Readers PayloadReader in
/-- **The fields of a response are read exactly as they are written.** -/
theorem reads_readResponse (tag : UInt8) :
    ReadsAs (readResponse tag) (fun bytes response => responseTag response = tag ∧ responseFields response = .ok bytes) := by
  unfold readResponse
  split
  case h_1 =>
    refine reads_fieldResponse (reads_array _) (fun _ => rfl) (fun _ => rfl) (fun r hr => ?_)
    cases r <;> simp [responseTag] at hr
    exact ⟨_, rfl⟩
  case h_2 =>
    refine reads_fieldResponse (reads_array _) (fun _ => rfl) (fun _ => rfl) (fun r hr => ?_)
    cases r <;> simp [responseTag] at hr
    exact ⟨_, rfl⟩
  case h_3 =>
    refine ((reads_array _).field (fun ga => reads_i64LE.last)).congr (fun bytes r => ⟨?_, ?_⟩)
    · rintro ⟨ga, _, rfl, fingerprint, rfl, rfl⟩
      exact ⟨rfl, rfl⟩
    · rintro ⟨htag, h⟩
      cases r <;> simp [responseTag] at htag
      cases h
      exact ⟨_, _, rfl, _, rfl, rfl⟩
  case h_4 =>
    refine reads_fieldResponse reads_i64LE (fun _ => rfl) (fun _ => rfl) (fun r hr => ?_)
    cases r <;> simp [responseTag] at hr
    exact ⟨_, rfl⟩
  case h_5 =>
    refine reads_fieldResponse reads_u64 (fun _ => rfl) (fun _ => rfl) (fun r hr => ?_)
    cases r <;> simp [responseTag] at hr
    exact ⟨_, rfl⟩
  case h_6 =>
    refine reads_plainResponse rfl rfl (fun r hr => ?_)
    cases r <;> simp [responseTag] at hr
    rfl
  case h_7 =>
    refine (reads_u64.field (fun requestId => (reads_array _).last)).congr (fun bytes r => ⟨?_, ?_⟩)
    · rintro ⟨requestId, _, rfl, capability, rfl, rfl⟩
      exact ⟨rfl, rfl⟩
    · rintro ⟨htag, h⟩
      cases r <;> simp [responseTag] at htag
      cases h
      exact ⟨_, _, rfl, _, rfl, rfl⟩
  case h_8 =>
    refine reads_plainResponse rfl rfl (fun r hr => ?_)
    cases r <;> simp [responseTag] at hr
    rfl
  case h_9 =>
    refine reads_fieldResponse (reads_array _) (fun _ => rfl) (fun _ => rfl) (fun r hr => ?_)
    cases r <;> simp [responseTag] at hr
    exact ⟨_, rfl⟩
  case h_10 =>
    refine reads_plainResponse rfl rfl (fun r hr => ?_)
    cases r <;> simp [responseTag] at hr
    rfl
  case h_11 =>
    refine reads_plainResponse rfl rfl (fun r hr => ?_)
    cases r <;> simp [responseTag] at hr
    rfl
  case h_12 =>
    refine (reads_u64.field (fun eventId => reads_event.last)).congr (fun bytes r => ⟨?_, ?_⟩)
    · rintro ⟨eventId, _, rfl, e, he, rfl⟩
      exact ⟨rfl, Results.bind_ok.2 ⟨_, he, rfl⟩⟩
    · rintro ⟨htag, h⟩
      cases r <;> simp [responseTag] at htag
      obtain ⟨_, he, h⟩ := Results.bind_ok.1 h
      cases h
      exact ⟨_, _, rfl, _, he, rfl⟩
  case h_13 =>
    refine reads_plainResponse rfl rfl (fun r hr => ?_)
    cases r <;> simp [responseTag] at hr
    rfl
  case h_14 =>
    refine reads_fieldResponse reads_u64 (fun _ => rfl) (fun _ => rfl) (fun r hr => ?_)
    cases r <;> simp [responseTag] at hr
    exact ⟨_, rfl⟩
  case h_15 =>
    refine (reads_u8.field (fun value => (reads_decodeError value).last)).congr (fun bytes r => ⟨?_, ?_⟩)
    · rintro ⟨_, _, rfl, code, ⟨rfl, rfl⟩, rfl⟩
      exact ⟨rfl, rfl⟩
    · rintro ⟨htag, h⟩
      cases r <;> simp [responseTag] at htag
      cases h
      exact ⟨_, _, rfl, _, ⟨rfl, rfl⟩, rfl⟩
  case h_16 =>
    refine (reads_throw _).congr (fun bytes r => ⟨False.elim, ?_⟩)
    rintro ⟨htag, _⟩
    cases r <;> simp_all [responseTag]

/-! ## A payload is no longer than a frame may be -/

theorem length_bytes {value output : List UInt8} {maximum : Nat} (h : PayloadWriter.bytes value maximum = .ok output) :
    output.length ≤ maximum + 2 := by
  obtain ⟨hle, _, rfl⟩ := PayloadWriter.bytes_eq_ok.1 h
  rw [length_append, PayloadWriter.u16, length_big]
  omega

theorem length_each {write : α → Except IpcError (List UInt8)} {k : Nat}
    (h : ∀ a output, write a = .ok output → output.length ≤ k) :
    ∀ (as : List α) (output : List UInt8), PayloadWriter.each write as = .ok output → output.length ≤ k * as.length
  | [], output, hout => by
    cases hout
    exact Nat.zero_le _
  | a :: as, output, hout => by
    obtain ⟨first, hfirst, hout⟩ := Results.bind_ok.1 hout
    obtain ⟨rest, hrest, hout⟩ := Results.bind_ok.1 hout
    cases hout
    have hf := h a first hfirst
    have hr := length_each h as rest hrest
    rw [length_append, length_cons, Nat.mul_succ]
    omega

open PayloadWriter in
theorem length_fields : (∀ v, (u8 v).length = 1) ∧ (∀ v, (u16 v).length = 2) ∧ (∀ v, (u32 v).length = 4) ∧
    (∀ v, (u64 v).length = 8) ∧ (∀ v, (i64 v).length = 8) ∧ (∀ v, (i64LE v).length = 8) ∧
    (∀ (n : Nat) (v : FixedBytes n), (array v).length = n) :=
  ⟨fun _ => rfl, fun _ => length_big _ _, fun _ => length_big _ _, fun _ => length_big _ _,
    fun _ => length_big _ _, fun _ => length_reverse.trans (length_big _ _), fun _ v => v.property⟩

theorem length_endpoint (e : MediaEndpoint) (output : List UInt8) (h : PayloadWriter.endpoint e = .ok output) :
    output.length ≤ 541 := by
  obtain ⟨h8, h16, _, _, hi64, _, harray⟩ := length_fields
  obtain ⟨ipv4, hipv4, h⟩ := Results.bind_ok.1 h
  obtain ⟨ipv6, hipv6, h⟩ := Results.bind_ok.1 h
  cases h
  have hlen := length_bytes hipv4
  have hlen' := length_bytes hipv6
  unfold MAX_HOST_BYTES at hlen hlen'
  simp only [length_append, h8, h16, hi64, harray]
  omega

theorem length_rtcServer (server : RtcServer) (output : List UInt8) (h : PayloadWriter.rtcServer server = .ok output) :
    output.length ≤ 775 := by
  obtain ⟨h8, h16, _, _, _, _, _⟩ := length_fields
  obtain ⟨host, hhost, h⟩ := Results.bind_ok.1 h
  obtain ⟨username, husername, h⟩ := Results.bind_ok.1 h
  obtain ⟨password, hpassword, h⟩ := Results.bind_ok.1 h
  cases h
  have hlen := length_bytes hhost
  have hlen' := length_bytes husername
  have hlen'' := length_bytes hpassword
  unfold MAX_HOST_BYTES at hlen hlen' hlen''
  simp only [length_append, h8, h16]
  omega

theorem length_mediaStartConfig (config : MediaStartConfig) (output : List UInt8)
    (h : PayloadWriter.mediaStartConfig config = .ok output) : output.length ≤ 21068 := by
  obtain ⟨h8, _, h32, _, _, _, _⟩ := length_fields
  obtain ⟨_, hvalid, h⟩ := Results.bind_ok.1 h
  obtain ⟨_, hcount, h⟩ := Results.bind_ok.1 h
  obtain ⟨_, hcount', h⟩ := Results.bind_ok.1 h
  obtain ⟨_, hendpoints, h⟩ := Results.bind_ok.1 h
  obtain ⟨_, hservers, h⟩ := Results.bind_ok.1 h
  obtain ⟨_, _, rfl⟩ := PayloadReader.count_eq_ok.1 hcount
  obtain ⟨_, _, rfl⟩ := PayloadReader.count_eq_ok.1 hcount'
  cases h
  obtain ⟨_, _, _, hle, hle', _, _⟩ := MediaStartConfig.validate_eq_ok.1 hvalid
  have hlen := length_each length_endpoint _ _ hendpoints
  have hlen' := length_each length_rtcServer _ _ hservers
  unfold MAX_ENDPOINTS at hle
  unfold MAX_RTC_SERVERS at hle'
  simp only [length_append, h8, h32]
  omega

theorem length_requestFields {request : Request} {fields : List UInt8} (h : requestFields request = .ok fields) :
    fields.length ≤ 65534 := by
  obtain ⟨h8, _, _, h64, _, hi64LE, harray⟩ := length_fields
  cases request with
  | completeCaller callId gb config =>
    obtain ⟨output, hconfig, h⟩ := Results.bind_ok.1 h
    cases h
    have hlen := length_mediaStartConfig _ _ hconfig
    simp only [length_append, h64, harray]
    have hdh : DH_PUBLIC_BYTES = 256 := rfl
    omega
  | completeRecipient callId ga fingerprint config =>
    obtain ⟨output, hconfig, h⟩ := Results.bind_ok.1 h
    cases h
    have hlen := length_mediaStartConfig _ _ hconfig
    simp only [length_append, h64, hi64LE, harray]
    have hdh : DH_PUBLIC_BYTES = 256 := rfl
    omega
  | signal callId requestId signal =>
    obtain ⟨output, hsignal, h⟩ := Results.bind_ok.1 h
    cases h
    have hlen := length_bytes hsignal
    unfold MAX_SIGNAL_BYTES at hlen
    simp only [length_append, h64]
    omega
  | _ =>
    cases h
    simp only [length_append, h64, harray]
    have hhash : GA_HASH_BYTES = 32 := rfl
    have hdh : DH_PUBLIC_BYTES = 256 := rfl
    have hcapability : PCM_CAPABILITY_BYTES = 32 := rfl
    have hframe : PCM_FRAME_BYTES = 1920 := rfl
    omega

theorem length_responseFields {fields : List UInt8} (h : responseFields response = .ok fields) :
    fields.length ≤ 65534 := by
  obtain ⟨h8, _, _, h64, _, hi64LE, harray⟩ := length_fields
  cases response with
  | event eventId e =>
    obtain ⟨output, he, h⟩ := Results.bind_ok.1 h
    cases h
    cases e with
    | outboundSignal signal =>
      obtain ⟨rest, hsignal, he⟩ := Results.bind_ok.1 he
      cases he
      have hlen := length_bytes hsignal
      unfold MAX_SIGNAL_BYTES at hlen
      simp only [length_append, h8, h64]
      omega
    | nativeError =>
      cases he
      simp only [length_append, h8, h64]
      omega
  | _ =>
    cases h
    simp only [length_append, length_nil, h8, h64, hi64LE, harray]
    have hhash : GA_HASH_BYTES = 32 := rfl
    have hdh : DH_PUBLIC_BYTES = 256 := rfl
    have hcapability : PCM_CAPABILITY_BYTES = 32 := rfl
    have hframe : PCM_FRAME_BYTES = 1920 := rfl
    omega

theorem PayloadReader.new_eq_ok {payload rest : List UInt8} :
    PayloadReader.new payload = .ok rest ↔
      payload = PROTOCOL_VERSION :: rest ∧ 1 ≤ rest.length ∧ rest.length < MAX_FRAME_BYTES := by
  unfold PayloadReader.new
  cases payload with
  | nil =>
    constructor
    · intro h
      cases h
    · rintro ⟨h, _⟩
      cases h
  | cons version tail =>
    rw [length_cons]
    dsimp only
    by_cases hbad : tail.length + 1 < 2 ∨ tail.length + 1 > MAX_FRAME_BYTES ∨ version ≠ PROTOCOL_VERSION
    · rw [if_pos hbad]
      constructor
      · intro h
        cases h
      · rintro ⟨h, hshort, hlong⟩
        cases h
        rcases hbad with hbad | hbad | hbad
        · omega
        · omega
        · exact absurd rfl hbad
    · rw [if_neg hbad]
      obtain ⟨hshort, hrest⟩ := not_or.1 hbad
      obtain ⟨hlong, hversion⟩ := not_or.1 hrest
      rw [not_not.1 hversion]
      constructor
      · intro h
        cases h
        exact ⟨rfl, by omega, by omega⟩
      · rintro ⟨h, _⟩
        cases h
        rfl

variable {payload : List UInt8}

open Readers PayloadReader in
theorem decode_eq_ok {read : UInt8 → PayloadReader α} {tagOf : α → UInt8}
    {fieldsOf : α → Except IpcError (List UInt8)}
    (hread : ∀ tag, ReadsAs (read tag) (fun bytes a => tagOf a = tag ∧ fieldsOf a = .ok bytes))
    (hlen : ∀ {a fields}, fieldsOf a = .ok fields → fields.length ≤ 65534) {a : α} :
    (PayloadReader.new payload >>= Readers.all .malformed (do let tag ← u8; read tag)) = .ok a ↔
      (fieldsOf a >>= fun fields => pure (PROTOCOL_VERSION :: tagOf a :: fields)) = .ok payload := by
  have hall := (reads_u8.field hread).all .malformed
  rw [Results.bind_ok, Results.bind_ok]
  constructor
  · rintro ⟨input, hnew, ha⟩
    obtain ⟨rfl, _⟩ := PayloadReader.new_eq_ok.1 hnew
    obtain ⟨_, fields, rfl, rfl, hfields⟩ := (hall input a).1 ha
    exact ⟨fields, hfields, rfl⟩
  · rintro ⟨fields, hfields, h⟩
    cases h
    have hlen := hlen hfields
    refine ⟨_, PayloadReader.new_eq_ok.2 ⟨rfl, ?_, ?_⟩, (hall _ a).2 ⟨_, fields, rfl, rfl, hfields⟩⟩
    · exact Nat.succ_le_succ (Nat.zero_le _)
    · rw [length_cons, MAX_FRAME_BYTES]
      omega

/-- **`decode_request` accepts exactly the encodings of requests.** -/
theorem decodeRequest_eq_ok {request : Request} :
    decodeRequest payload = .ok request ↔ encodeRequest request = .ok payload :=
  decode_eq_ok reads_readRequest length_requestFields

/-- **`decode_response` accepts exactly the encodings of responses.** -/
theorem decodeResponse_eq_ok :
    decodeResponse payload = .ok response ↔ encodeResponse response = .ok payload :=
  decode_eq_ok reads_readResponse length_responseFields

open Readers in
theorem PayloadReader.reads_frame : ReadsAs frame (fun bytes payload =>
    2 ≤ payload.length ∧ payload.length ≤ MAX_FRAME_BYTES ∧ bytes = Endian.big 4 payload.length ++ payload) := by
  refine ((reads_take _ 4).bind (fun header => (reads_take IpcError.io (Endian.value header)).unless _ _)).congr
    (fun bytes payload => ⟨?_, ?_⟩)
  · rintro ⟨header, _, _, rfl, ⟨rfl, hlen⟩, hbound, rfl, hvalue⟩
    rw [not_not, ← hvalue] at hbound
    rw [hvalue, big_value_of_length hlen]
    exact ⟨hvalue ▸ hbound.1, hvalue ▸ hbound.2, rfl⟩
  · rintro ⟨hshort, hlong, rfl⟩
    have hvalue : Endian.value (Endian.big 4 payload.length) = payload.length :=
      value_big_of_lt (Nat.lt_of_le_of_lt hlong (by decide))
    refine ⟨_, _, _, rfl, ⟨rfl, length_big _ _⟩, ?_, rfl, hvalue.symm⟩
    rw [not_not, hvalue]
    exact ⟨hshort, hlong⟩

/-- **A framed payload is read, and what follows it is left.** -/
theorem readFrame_append (rest : List UInt8) (hshort : 2 ≤ payload.length)
    (hlong : payload.length ≤ MAX_FRAME_BYTES) :
    readFrame (Endian.big 4 payload.length ++ payload ++ rest) = .ok (some payload, rest) := by
  have hrun := (PayloadReader.reads_frame (Endian.big 4 payload.length ++ payload ++ rest) payload rest).2
    ⟨_, ⟨hshort, hlong, rfl⟩, rfl⟩
  unfold readFrame
  split
  · rename_i hnil
    have hlen := congrArg List.length hnil
    rw [length_append, length_append, length_nil] at hlen
    omega
  · rw [hrun]
    rfl

end VoiceIpc
end Crossgram
