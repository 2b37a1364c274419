import Crossgram.Lib.Runs
import Crossgram.TransportCodecs
/-!
# TransportFraming — framing does not depend on chunking

Whatever chunks the bytes come in and wherever the drain loop suspends, the frames still to come are those of the bytes
not yet decoded (`Detected.rest`); once the loop is idle nothing is left to decode, so what was delivered is what decoding
the whole stream at once gives.
-/
namespace Crossgram

open List

/-! ## Detection -/

variable {crypto : List UInt8 → List UInt8 → Nat → UInt8} {capacity : Nat}

/-- `codec` is what the first `n` bytes tell, whatever follows them. -/
structure Detects (crypto : List UInt8 → List UInt8 → Nat → UInt8) (capacity : Nat) (bytes : List UInt8)
    (codec : PacketCodec) (n : Nat) : Prop where
  size : 0 < n ∧ n ≤ bytes.length
  fresh : codec.clear [] = []
  detects : ∀ buffer : Bytes, bytes <+: buffer.unread →
    detectTransport crypto capacity buffer = (.ok (some codec), (buffer.readSync n).2)

theorem detectTransport_eq (buffer : Bytes) : detectTransport crypto capacity buffer =
    if buffer.available < 1 then (.ok none, buffer)
    else if (buffer.unread.take 1)[0]? = some 0xef then (.ok (some (.plain .abridged)), (buffer.readSync 1).2)
    else if buffer.available < 4 then (.ok none, buffer)
    else if allEqual (buffer.unread.take 4) 0xee then (.ok (some (.plain .intermediate)), (buffer.readSync 4).2)
    else if allEqual (buffer.unread.take 4) 0xdd then (.ok (some (.plain .paddedIntermediate)), (buffer.readSync 4).2)
    else if buffer.available < 64 then (.ok none, buffer)
    else match createServerObfuscation crypto capacity (buffer.unread.take 64) with
      | .error e       => (.error e, (buffer.readSync 64).2)
      | .ok (codec, _) => (.ok (some (.obfuscated codec)), (buffer.readSync 64).2) := by
  unfold detectTransport
  by_cases h1 : buffer.available < 1
  · rw [if_pos h1, if_pos h1]
  · rw [if_neg h1, if_neg h1]
    have hrewind : (buffer.readSync 1).2.rewind 1 = buffer := Bytes.rewind_readSync (Nat.le_of_not_lt h1)
    simp only [hrewind]
    by_cases h4 : buffer.available < 4
    · simp only [if_pos h4]
      rfl
    · have hrewind4 : (buffer.readSync 4).2.rewind 4 = buffer := Bytes.rewind_readSync (Nat.le_of_not_lt h4)
      simp only [if_neg h4, hrewind4]
      rfl

theorem createServerObfuscation_ok (crypto : List UInt8 → List UInt8 → Nat → UInt8) (capacity : Nat)
    {header : List UInt8} (h : header.length = 64) : ∃ codec tag,
    createServerObfuscation crypto capacity header = .ok (codec, tag) ∧ codec.decodeBuf = Bytes.alloc capacity := by
  unfold createServerObfuscation
  rw [if_neg (fun hne => hne h)]
  exact ⟨_, _, rfl, rfl⟩

theorem detectTransport_cases (crypto : List UInt8 → List UInt8 → Nat → UInt8) (capacity : Nat) (buffer : Bytes) :
    detectTransport crypto capacity buffer = (.ok none, buffer) ∨
      ∃ codec n, Detects crypto capacity buffer.unread codec n := by
  have htake : ∀ {n : Nat} {bytes : List UInt8}, n ≤ buffer.available → buffer.unread <+: bytes →
      bytes.take n = buffer.unread.take n := fun hn hp => by
    obtain ⟨later, rfl⟩ := hp
    exact take_append_of_le_length hn
  have hlong : ∀ {n : Nat} {other : Bytes}, n ≤ buffer.available → buffer.unread <+: other.unread →
      ¬other.available < n := fun hn hp => Nat.not_lt.2 (Nat.le_trans hn hp.length_le)
  by_cases h1 : buffer.available < 1
  · exact .inl (by rw [detectTransport_eq, if_pos h1])
  have h1' := Nat.le_of_not_lt h1
  by_cases hef : (buffer.unread.take 1)[0]? = some 0xef
  · refine .inr ⟨.plain .abridged, 1, ⟨Nat.one_pos, h1'⟩, rfl, fun other hp => ?_⟩
    rw [detectTransport_eq, if_neg (hlong h1' hp), htake h1' hp, if_pos hef]
  by_cases h4 : buffer.available < 4
  · exact .inl (by rw [detectTransport_eq, if_neg h1, if_neg hef, if_pos h4])
  have h4' := Nat.le_of_not_lt h4
  by_cases hee : allEqual (buffer.unread.take 4) 0xee = true
  · refine .inr ⟨.plain .intermediate, 4, ⟨Nat.succ_pos 3, h4'⟩, rfl, fun other hp => ?_⟩
    rw [detectTransport_eq, if_neg (hlong h1' hp), htake h1' hp, if_neg hef, if_neg (hlong h4' hp), htake h4' hp, if_pos hee]
  by_cases hdd : allEqual (buffer.unread.take 4) 0xdd = true
  · refine .inr ⟨.plain .paddedIntermediate, 4, ⟨Nat.succ_pos 3, h4'⟩, rfl, fun other hp => ?_⟩
    rw [detectTransport_eq, if_neg (hlong h1' hp), htake h1' hp, if_neg hef, if_neg (hlong h4' hp), htake h4' hp, if_neg hee,
      if_pos hdd]
  by_cases h64 : buffer.available < 64
  · exact .inl (by rw [detectTransport_eq, if_neg h1, if_neg hef, if_neg h4, if_neg hee, if_neg hdd, if_pos h64])
  have h64' := Nat.le_of_not_lt h64
  have hheader : (buffer.unread.take 64).length = 64 := length_take_of_le h64'
  obtain ⟨codec, tag, hcodec, hbuf⟩ := createServerObfuscation_ok crypto capacity hheader
  refine .inr ⟨.obfuscated codec, 64, ⟨Nat.succ_pos 63, h64'⟩, ?_, fun other hp => ?_⟩
  · unfold PacketCodec.clear
    simp only [hbuf, Bytes.alloc, applyKeystream, append_nil]
  · rw [detectTransport_eq, if_neg (hlong h1' hp), htake h1' hp, if_neg hef, if_neg (hlong h4' hp), htake h4' hp, if_neg hee,
      if_neg hdd, if_neg (hlong h64' hp), htake h64' hp, hcodec]

theorem Detects.extend {bytes bytes' : List UInt8} {codec : PacketCodec} {n : Nat}
    (h : Detects crypto capacity bytes codec n) (hp : bytes <+: bytes') : Detects crypto capacity bytes' codec n :=
  ⟨⟨h.size.1, Nat.le_trans h.size.2 hp.length_le⟩, h.fresh, fun buffer hb => h.detects buffer (hp.trans hb)⟩

namespace ReceivingConnection

/-! ## What is kept -/

variable (platform : Platform)

structure Undetected (c : ReceivingConnection) : Prop where
  codec : c.codec = none
  frames : c.frames = []
  closed : c.closed = false
  decoding : c.phase ≠ .decoding
  bytes : c.recvBuffer.unread ++ c.pendingSocketData.flatten = c.chunks.flatten
  undecided : detectTransport platform.crypto platform.capacity c.recvBuffer = (.ok none, c.recvBuffer)
  idle : c.phase = .idle → c.pendingSocketData = []

/-- `first` is the codec as it was detected behind `n` bytes, `codec` the one that is decoding. -/
structure Detected (c : ReceivingConnection) (first codec : PacketCodec) (n : Nat) : Prop where
  current : c.codec = some codec
  detects : Detects platform.crypto platform.capacity c.chunks.flatten first n
  transport : codec.transport = first.transport
  rest : c.closed = false → ∀ later,
    Framing.frames (first.find platform.mtcute) (first.clear (c.chunks.flatten.drop n ++ later)) =
      c.frames ++ Framing.frames (first.find platform.mtcute)
        (codec.clear (c.recvBuffer.unread ++ (c.pendingSocketData.flatten ++ later)))
  failed : c.closed = true → c.phase ≠ .decoding ∧ ∀ later,
    Framing.frames (first.find platform.mtcute) (first.clear (c.chunks.flatten.drop n ++ later)) = c.frames
  decoded : c.closed = false → c.phase ≠ .decoding →
    first.find platform.mtcute (codec.clear c.recvBuffer.unread) = .incomplete
  idle : c.closed = false → c.phase = .idle → c.pendingSocketData = []

def Framed (c : ReceivingConnection) : Prop :=
  Undetected platform c ∨ ∃ first codec n, Detected platform c first codec n

variable {platform} {c : ReceivingConnection}

theorem framed_empty : Framed platform empty :=
  .inl ⟨rfl, rfl, rfl, DrainPhase.noConfusion, rfl, detectTransport_eq _, fun _ => rfl⟩

theorem Framed.schedule (hidle : c.phase = .idle) (hopen : c.closed = false)
    (h : Framed platform { c with phase := .looping }) : Framed platform c.scheduleDecode := by
  unfold scheduleDecode
  rw [hopen, if_neg (fun hor => hor.elim (fun hne => hne hidle) Bool.false_ne_true)]
  rwa [hopen] at h

theorem Framed.unscheduled (hbusy : c.phase ≠ .idle ∨ c.closed = true) (h : Framed platform c) :
    Framed platform c.scheduleDecode := by
  unfold scheduleDecode
  rwa [if_pos hbusy]

theorem flatten_concat (chunks : List (List UInt8)) (chunk : List UInt8) :
    (chunks ++ [chunk]).flatten = chunks.flatten ++ chunk := by
  rw [flatten_append, flatten_singleton]

theorem Framed.queue (h : Framed platform c) (hopen : c.closed = false) (chunk : List UInt8) {phase : DrainPhase}
    (hphase : phase = .decoding ↔ c.phase = .decoding) (hbusy : phase ≠ .idle) :
    Framed platform { c with
      phase := phase
      chunks := c.chunks ++ [chunk]
      pendingSocketData := c.pendingSocketData ++ [chunk] } := by
  rcases h with h | ⟨first, codec, n, h⟩
  · refine .inl ⟨h.codec, h.frames, h.closed, fun hd => h.decoding (hphase.1 hd), ?_, h.undecided, fun hi => absurd hi hbusy⟩
    show c.recvBuffer.unread ++ (c.pendingSocketData ++ [chunk]).flatten = (c.chunks ++ [chunk]).flatten
    rw [flatten_concat, flatten_concat, ← append_assoc, h.bytes]
  · have hdrop : ((c.chunks ++ [chunk]).flatten).drop n = c.chunks.flatten.drop n ++ chunk := by
      rw [flatten_concat, drop_append_of_le_length h.detects.size.2]
    refine .inr ⟨first, codec, n, ⟨h.current, h.detects.extend ?_, h.transport, fun _ later => ?_, fun hclosed => ?_,
      fun _ hd => h.decoded hopen (fun hc => hd (hphase.2 hc)), fun _ hi => absurd hi hbusy⟩⟩
    · rw [flatten_concat]
      exact prefix_append _ _
    · show Framing.frames _ (first.clear (((c.chunks ++ [chunk]).flatten).drop n ++ later)) = c.frames ++
        Framing.frames _ (codec.clear (c.recvBuffer.unread ++ ((c.pendingSocketData ++ [chunk]).flatten ++ later)))
      rw [hdrop, flatten_concat, append_assoc, append_assoc]
      exact h.rest hopen (chunk ++ later)
    · exact absurd (hopen.symm.trans hclosed) Bool.noConfusion

theorem Framed.handleData (h : Framed platform c) (chunk : List UInt8) : Framed platform (c.handleData chunk) := by
  unfold ReceivingConnection.handleData
  by_cases hclosed : c.closed = true
  · refine (if_pos hclosed).symm ▸ ?_
    rcases h with h | ⟨first, codec, n, h⟩
    · exact absurd (h.closed.symm.trans hclosed) Bool.noConfusion
    · have hno : c.closed ≠ false := fun hopen => absurd (hopen.symm.trans hclosed) Bool.noConfusion
      refine .inr ⟨first, codec, n, ⟨h.current, h.detects.extend ?_, h.transport, fun hopen => absurd hopen hno, fun _ =>
        ⟨(h.failed hclosed).1, fun later => ?_⟩, fun hopen => absurd hopen hno, fun hopen => absurd hopen hno⟩⟩
      · rw [flatten_concat]
        exact prefix_append _ _
      · show Framing.frames _ (first.clear (((c.chunks ++ [chunk]).flatten).drop n ++ later)) = c.frames
        rw [flatten_concat, drop_append_of_le_length h.detects.size.2, append_assoc]
        exact (h.failed hclosed).2 (chunk ++ later)
  · refine (if_neg hclosed).symm ▸ ?_
    rw [Bool.not_eq_true] at hclosed
    by_cases hidle : c.phase = .idle
    · refine Framed.schedule hidle hclosed (h.queue hclosed chunk ⟨fun hd => (nomatch hd), fun hd => ?_⟩ DrainPhase.noConfusion)
      rw [hidle] at hd
      cases hd
    · exact Framed.unscheduled (.inl hidle) (h.queue hclosed chunk Iff.rfl hidle)

theorem unread_foldl_writeSync (grow : Nat → Nat → Nat) : ∀ (chunks : List (List UInt8)) (buffer : Bytes),
    (chunks.foldl (fun buffer chunk => buffer.writeSync grow chunk) buffer).unread = buffer.unread ++ chunks.flatten
  | [],              buffer => (append_nil _).symm
  | chunk :: chunks, buffer => by
    rw [foldl_cons, unread_foldl_writeSync grow chunks, Bytes.unread_writeSync, flatten_cons, append_assoc]

variable {codec : PacketCodec}

theorem Undetected.detect (h : Undetected platform c) {buffer : Bytes} (hbuffer : buffer.unread = c.chunks.flatten)
    {n : Nat} (hd : Detects platform.crypto platform.capacity buffer.unread codec n) :
    Detected platform { c with
      pendingSocketData := []
      codec := some codec
      recvBuffer := (buffer.readSync n).2
      phase := .decoding } codec codec n := by
  rw [hbuffer] at hd
  refine ⟨rfl, hd, rfl, fun _ later => ?_, fun hclosed => ?_, fun _ hne => absurd rfl hne, fun _ hi => (nomatch hi)⟩
  · show _ = c.frames ++ Framing.frames _ (codec.clear (buffer.unread.drop n ++ ([] ++ later)))
    rw [h.frames, hbuffer, nil_append, nil_append]
  · exact absurd (h.closed.symm.trans hclosed) Bool.noConfusion

theorem Framed.drainPending (h : Framed platform c) (hphase : c.phase = .looping) :
    Framed platform (c.drainPending platform) := by
  have hdecoding : c.phase ≠ .decoding := by
    rw [hphase]
    exact DrainPhase.noConfusion
  have hunread := unread_foldl_writeSync platform.grow c.pendingSocketData c.recvBuffer
  unfold ReceivingConnection.drainPending
  by_cases hstop : c.closed = true ∨ c.pendingSocketData = []
  · rw [if_pos hstop]
    rcases h with h | ⟨first, codec, n, h⟩
    · exact .inl ⟨h.codec, h.frames, h.closed, fun hd => (nomatch hd), h.bytes, h.undecided, fun hi => (nomatch hi)⟩
    · exact .inr ⟨first, codec, n, ⟨h.current, h.detects, h.transport, h.rest,
        fun hc => ⟨fun hd => (nomatch hd), (h.failed hc).2⟩, fun hopen _ => h.decoded hopen hdecoding,
        fun _ hi => (nomatch hi)⟩⟩
  · rw [if_neg hstop]
    rw [not_or, Bool.not_eq_true] at hstop
    rcases h with h | ⟨first, codec, n, h⟩
    · simp only [h.codec]
      generalize c.pendingSocketData.foldl (fun buffer chunk => buffer.writeSync platform.grow chunk) c.recvBuffer = buffer
        at hunread
      have hbuffer : buffer.unread = c.chunks.flatten := hunread.trans h.bytes
      rcases detectTransport_cases platform.crypto platform.capacity buffer with hnone | ⟨codec, n, hd⟩
      · simp only [hnone]
        refine .inl ⟨rfl, h.frames, h.closed, fun hd => (nomatch hd), ?_, hnone, fun hi => (nomatch hi)⟩
        exact (append_nil _).trans hbuffer
      · simp only [hd.detects buffer prefix_rfl]
        exact .inr ⟨codec, codec, n, h.detect hbuffer hd⟩
    · simp only [h.current]
      refine .inr ⟨first, codec, n, ⟨rfl, h.detects, h.transport, fun hopen later => ?_, fun hc => ?_,
        fun _ hne => absurd rfl hne, fun _ hi => (nomatch hi)⟩⟩
      · show _ = c.frames ++ Framing.frames _ (codec.clear ((c.pendingSocketData.foldl _ c.recvBuffer).unread ++ ([] ++ later)))
        rw [hunread, nil_append, append_assoc]
        exact h.rest hopen later
      · exact absurd (hstop.1.symm.trans hc) Bool.noConfusion

/-- **A decoding delivers the next frame of the stream.** -/
theorem Framed.decodeNext (hstable : platform.mtcute.Stable) (h : Framed platform c) (hphase : c.phase = .decoding)
    (hcodec : c.codec = some codec) : Framed platform (c.decodeNext platform codec) := by
  rcases h with h | ⟨first, codec', n, h⟩
  · exact absurd hphase h.decoding
  · obtain rfl : codec' = codec := Option.some.inj (h.current.symm.trans hcodec)
    have hopen : c.closed = false := by
      rw [← Bool.not_eq_true]
      exact fun hc => (h.failed hc).1 hphase
    have hfirst : codec'.find platform.mtcute = first.find platform.mtcute := PacketCodec.find_congr h.transport
    have hs : Framing.Stable (first.find platform.mtcute) := first.inner.stable_find hstable
    have hextends : ∀ later, codec'.clear c.recvBuffer.unread <+:
        codec'.clear (c.recvBuffer.unread ++ (c.pendingSocketData.flatten ++ later)) := fun later => codec'.clear_extends _ _
    have hdecodes := codec'.decodes hstable platform.grow c.recvBuffer
    unfold ReceivingConnection.decodeNext
    generalize codec'.decode platform.mtcute platform.grow c.recvBuffer false = result at hdecodes
    cases hdecodes with
    | incomplete hfind hleaves =>
      rename_i codec₂ buffer
      rw [hfirst] at hfind
      refine .inr ⟨first, codec₂, n, ⟨rfl, h.detects, hleaves.transport.trans h.transport, fun _ later => ?_, fun hc => ?_,
        fun _ _ => ?_, fun _ hi => (nomatch hi)⟩⟩
      · show _ = c.frames ++ Framing.frames _
          (codec₂.clear ((reclaimReceiveBuffer buffer 65536).unread ++ (c.pendingSocketData.flatten ++ later)))
        rw [unread_reclaimReceiveBuffer, hleaves.clear, drop_zero]
        exact h.rest hopen later
      · exact absurd (hopen.symm.trans hc) Bool.noConfusion
      · show first.find _ (codec₂.clear (reclaimReceiveBuffer buffer 65536).unread) = _
        have hclear := hleaves.clear []
        rw [append_nil, append_nil, drop_zero] at hclear
        rw [unread_reclaimReceiveBuffer, hclear]
        exact hfind
    | frame hfind hleaves =>
      rename_i data size codec₂ buffer
      rw [hfirst] at hfind
      refine .inr ⟨first, codec₂, n, ⟨rfl, h.detects, hleaves.transport.trans h.transport, fun _ later => ?_, fun hc => ?_,
        fun _ hne => absurd hphase hne, fun _ hi => ?_⟩⟩
      · show _ = (c.frames ++ [data]) ++ Framing.frames _ (codec₂.clear (buffer.unread ++ (c.pendingSocketData.flatten ++ later)))
        rw [hleaves.clear, append_assoc, singleton_append, ← Framing.frames_extend hs (hextends later) hfind]
        exact h.rest hopen later
      · exact absurd (hopen.symm.trans hc) Bool.noConfusion
      · have hidle : c.phase = .idle := hi
        rw [hphase] at hidle
        cases hidle
    | fails hfind htransport =>
      rename_i codec₂ buffer
      rw [hfirst] at hfind
      refine .inr ⟨first, codec₂, n, ⟨rfl, h.detects, htransport.trans h.transport, fun hc => (nomatch hc),
        fun _ => ⟨fun hd => (nomatch hd), fun later => ?_⟩, fun hc => (nomatch hc), fun hc => (nomatch hc)⟩⟩
      have hrest := h.rest hopen later
      rw [Framing.frames_extend_fails hs (hextends later) hfind, append_nil] at hrest
      exact hrest

theorem Framed.finishDrain (h : Framed platform c) (hphase : c.phase = .settled) : Framed platform c.finishDrain := by
  have hdecoding : c.phase ≠ .decoding := by
    rw [hphase]
    exact DrainPhase.noConfusion
  have hset : ∀ phase : DrainPhase, phase ≠ .decoding → (phase = .idle → c.closed = false → c.pendingSocketData = []) →
      Framed platform { c with phase := phase } := fun phase hd hi => by
    rcases h with h | ⟨first, codec, n, h⟩
    · exact .inl ⟨h.codec, h.frames, h.closed, hd, h.bytes, h.undecided, fun hidle => hi hidle h.closed⟩
    · exact .inr ⟨first, codec, n, ⟨h.current, h.detects, h.transport, h.rest, fun hc => ⟨hd, (h.failed hc).2⟩,
        fun hopen _ => h.decoded hopen hdecoding, fun hopen hidle => hi hidle hopen⟩⟩
  unfold ReceivingConnection.finishDrain
  by_cases hnil : c.pendingSocketData = []
  · simp only [if_pos hnil]
    exact hset .idle DrainPhase.noConfusion (fun _ _ => hnil)
  · simp only [if_neg hnil]
    by_cases hclosed : c.closed = true
    · refine Framed.unscheduled (.inr hclosed) (hset .idle DrainPhase.noConfusion (fun _ hopen => ?_))
      exact absurd (hopen.symm.trans hclosed) Bool.noConfusion
    · refine Framed.schedule rfl (Bool.not_eq_true _ ▸ hclosed) ?_
      exact hset .looping DrainPhase.noConfusion (fun hi => nomatch hi)

theorem Framed.resume (hstable : platform.mtcute.Stable) (h : Framed platform c) : Framed platform (c.resume platform) := by
  unfold ReceivingConnection.resume
  cases hphase : c.phase with
  | idle => exact h
  | looping => exact h.drainPending hphase
  | decoding =>
    cases hcodec : c.codec with
    | none => exact h
    | some codec => exact h.decodeNext hstable hphase hcodec
  | settled => exact h.finishDrain hphase

theorem framed_step (hstable : platform.mtcute.Stable) {event : SocketEvent} {c' : ReceivingConnection}
    (h : Framed platform c) (hs : step platform c event = some c') : Framed platform c' := by
  cases event with
  | data chunk =>
    rw [step] at hs
    split at hs
    · cases hs
    · cases hs
      exact h.handleData chunk
  | resume =>
    rw [step] at hs
    split at hs
    · cases hs
    · cases hs
      exact h.resume hstable

/-! ## An idle connection -/

variable (platform) in
def decodeStream (stream : List UInt8) : Option Transport × List (List UInt8) :=
  match detectTransport platform.crypto platform.capacity { taken := [], unread := stream, capacity := 65536 } with
  | (.ok (some codec), buffer) =>
    (some codec.transport, codec.decodeFrames platform.mtcute platform.grow stream.length buffer)
  | _ => (none, [])

/-- **An idle connection has delivered the frames of its stream.** -/
theorem Framed.decodeStream_of_idle (hstable : platform.mtcute.Stable) (h : Framed platform c) (hidle : c.phase = .idle) :
    (c.codec.map PacketCodec.transport, c.frames) = decodeStream platform c.chunks.flatten := by
  unfold decodeStream
  rcases h with h | ⟨first, codec, n, h⟩
  · have hbytes : c.recvBuffer.unread = c.chunks.flatten := by
      have := h.bytes
      rwa [h.idle hidle, flatten_nil, append_nil] at this
    rcases detectTransport_cases platform.crypto platform.capacity
      { taken := [], unread := c.chunks.flatten, capacity := 65536 } with hnone | ⟨codec, n, hd⟩
    · rw [hnone, h.codec, h.frames]
      rfl
    · have hsome := hd.detects c.recvBuffer ⟨[], (append_nil _).trans hbytes.symm⟩
      have := (congrArg Prod.fst h.undecided).symm.trans (congrArg Prod.fst hsome)
      cases this
  · have hs : Framing.Stable (first.find platform.mtcute) := first.inner.stable_find hstable
    rw [h.detects.detects _ prefix_rfl, h.current]
    have hlength : (first.clear (c.chunks.flatten.drop n)).length ≤ c.chunks.flatten.length := by
      rw [PacketCodec.length_clear, h.detects.fresh, length_drop, length_nil]
      omega
    have hframes : c.frames = Framing.frames (first.find platform.mtcute) (first.clear (c.chunks.flatten.drop n)) := by
      by_cases hclosed : c.closed = true
      · have := (h.failed hclosed).2 []
        rw [append_nil] at this
        exact this.symm
      · rw [Bool.not_eq_true] at hclosed
        have hnot : c.phase ≠ .decoding := by
          rw [hidle]
          exact DrainPhase.noConfusion
        have := h.rest hclosed []
        rw [h.idle hclosed hidle, flatten_nil, append_nil, append_nil, append_nil,
          Framing.frames_of_incomplete (h.decoded hclosed hnot), append_nil] at this
        exact this.symm
    simp only [Option.map_some, Prod.mk.injEq]
    refine ⟨congrArg some h.transport, ?_⟩
    rw [PacketCodec.decodeFrames_eq hstable, Bytes.unread_readSync, Framing.framesWithin_eq hs hlength]
    exact hframes

/-! ## The drain comes to its end -/

variable (c) in
def held : Nat :=
  if c.closed then 0
  else (c.codec.elim c.recvBuffer.unread (fun codec => codec.clear c.recvBuffer.unread)).length +
    c.pendingSocketData.flatten.length

/-- The way from a phase to `idle`; queued chunks make it longer. -/
def rank (queued : Bool) : DrainPhase → Nat
  | .idle     => 0
  | .settled  => if queued then 5 else 1
  | .looping  => if queued then 4 else 2
  | .decoding => if queued then 6 else 3

variable (c) in
def queued : Bool := !c.closed && !c.pendingSocketData.isEmpty

variable (c) in
def work : Nat := c.held + rank c.queued c.phase

theorem held_of_open (h : c.closed = false) : c.held =
    (c.codec.elim c.recvBuffer.unread (fun codec => codec.clear c.recvBuffer.unread)).length +
      c.pendingSocketData.flatten.length := by
  unfold held
  rw [h, if_neg Bool.false_ne_true]

theorem queued_of_open (h : c.closed = false) (hpending : c.pendingSocketData ≠ []) : c.queued = true := by
  unfold queued
  rw [h, Bool.not_false, Bool.true_and, Bool.not_eq_true', ← Bool.not_eq_true, List.isEmpty_iff]
  exact hpending

theorem queued_of_nil (h : c.pendingSocketData = []) : c.queued = false := by
  unfold queued
  rw [h]
  exact Bool.and_false _

theorem work_of_closed (h : c.closed = true) : c.work = rank false c.phase := by
  unfold work held queued
  rw [h, if_pos rfl]
  exact Nat.zero_add _

theorem work_of_open (h : c.closed = false) : c.work =
    (c.codec.elim c.recvBuffer.unread (fun codec => codec.clear c.recvBuffer.unread)).length +
      c.pendingSocketData.flatten.length + rank c.queued c.phase := by
  unfold work
  rw [held_of_open h]

theorem work_lt {m : Nat} (h : c.closed = false)
    (hlt : (c.codec.elim c.recvBuffer.unread (fun codec => codec.clear c.recvBuffer.unread)).length +
      c.pendingSocketData.flatten.length + rank c.queued c.phase < m) : c.work < m := by
  rwa [work_of_open h]

theorem work_lt_of_nil {m : Nat} (h : c.closed = false) (hnil : c.pendingSocketData = [])
    (hlt : (c.codec.elim c.recvBuffer.unread (fun codec => codec.clear c.recvBuffer.unread)).length +
      rank false c.phase < m) : c.work < m := by
  rw [work_of_open h, queued_of_nil hnil, hnil]
  exact hlt

theorem work_drainPending (h : Framed platform c) (hphase : c.phase = .looping) :
    (c.drainPending platform).work < c.work := by
  have hunread := unread_foldl_writeSync platform.grow c.pendingSocketData c.recvBuffer
  unfold ReceivingConnection.drainPending
  by_cases hstop : c.closed = true ∨ c.pendingSocketData = []
  · rw [if_pos hstop]
    have hqueued : c.queued = false := by
      rcases hstop with hclosed | hnil
      · unfold queued
        rw [hclosed]
        rfl
      · exact queued_of_nil hnil
    show c.held + rank c.queued .settled < c.held + rank c.queued c.phase
    rw [hphase, hqueued]
    exact Nat.add_lt_add_left (Nat.lt_succ_self 1) _
  · rw [if_neg hstop]
    rw [not_or, Bool.not_eq_true] at hstop
    have hwork : c.work = c.held + 4 := by
      unfold work
      rw [queued_of_open hstop.1 hstop.2, hphase]
      rfl
    rw [hwork, held_of_open hstop.1]
    have hlength := congrArg List.length hunread
    rw [length_append] at hlength
    rcases h with h | ⟨first, codec, n, h⟩
    · simp only [h.codec, Option.elim_none]
      generalize c.pendingSocketData.foldl (fun buffer chunk => buffer.writeSync platform.grow chunk) c.recvBuffer = buffer
        at hlength
      rw [← hlength]
      rcases detectTransport_cases platform.crypto platform.capacity buffer with hnone | ⟨codec, n, hd⟩
      · simp only [hnone]
        refine work_lt_of_nil ?_ rfl (Nat.add_lt_add_left ?_ _)
        · exact hstop.1
        · exact Nat.lt_of_sub_eq_succ rfl
      · simp only [hd.detects buffer prefix_rfl]
        refine work_lt_of_nil ?_ rfl ?_
        · exact hstop.1
        · show (codec.clear (buffer.unread.drop n)).length + 3 < buffer.unread.length + 4
          rw [PacketCodec.length_clear, hd.fresh, length_drop, length_nil]
          omega
    · simp only [h.current, Option.elim_some]
      refine work_lt_of_nil ?_ rfl ?_
      · exact hstop.1
      · show (codec.clear (c.pendingSocketData.foldl _ c.recvBuffer).unread).length + 3 < _
        rw [PacketCodec.length_clear, PacketCodec.length_clear codec c.recvBuffer.unread, hlength]
        omega

theorem work_decodeNext (hstable : platform.mtcute.Stable) (h : Framed platform c) (hphase : c.phase = .decoding)
    (hcodec : c.codec = some codec) : (c.decodeNext platform codec).work < c.work := by
  have hopen : c.closed = false := by
    rcases h with h | ⟨first, codec', n, h⟩
    · exact h.closed
    · rw [← Bool.not_eq_true]
      exact fun hc => (h.failed hc).1 hphase
  have hs : Framing.Stable (codec.find platform.mtcute) := codec.inner.stable_find hstable
  have hwork : c.work = (codec.clear c.recvBuffer.unread).length + c.pendingSocketData.flatten.length +
      rank c.queued .decoding := by
    rw [work_of_open hopen, hcodec, hphase]
    rfl
  have hdecodes := codec.decodes hstable platform.grow c.recvBuffer
  rw [hwork]
  unfold ReceivingConnection.decodeNext
  generalize codec.decode platform.mtcute platform.grow c.recvBuffer false = result at hdecodes
  cases hdecodes with
  | incomplete hfind hleaves =>
    rename_i codec₂ buffer
    have hclear := hleaves.clear []
    rw [append_nil, append_nil, drop_zero] at hclear
    refine work_lt ?_ ?_
    · exact hopen
    · show (codec₂.clear (reclaimReceiveBuffer buffer 65536).unread).length + c.pendingSocketData.flatten.length +
        rank c.queued .looping < _
      rw [unread_reclaimReceiveBuffer, hclear]
      refine Nat.add_lt_add_left ?_ _
      cases c.queued <;> decide
  | frame hfind hleaves =>
    rename_i data size codec₂ buffer
    have hsize := hs.size _ _ _ hfind
    have hclear := hleaves.clear []
    rw [append_nil, append_nil] at hclear
    refine work_lt ?_ ?_
    · exact hopen
    · show (codec₂.clear buffer.unread).length + c.pendingSocketData.flatten.length + rank c.queued c.phase < _
      rw [hclear, hphase, length_drop]
      omega
  | fails hfind htransport =>
    rename_i codec₂ buffer
    have hclosed : (fail { c with codec := some codec₂, recvBuffer := buffer }).closed = true := rfl
    show (fail { c with codec := some codec₂, recvBuffer := buffer }).work < _
    rw [work_of_closed hclosed]
    show 1 < _
    cases c.queued
    · exact Nat.lt_add_left _ (by decide)
    · exact Nat.lt_add_left _ (by decide)

theorem work_finishDrain (hphase : c.phase = .settled) : c.finishDrain.work < c.work := by
  have hidle : (ReceivingConnection.work { c with phase := .idle }) < c.work := by
    show c.held + 0 < c.held + rank c.queued c.phase
    rw [hphase]
    cases c.queued
    · exact Nat.add_lt_add_left (by decide) _
    · exact Nat.add_lt_add_left (by decide) _
  unfold ReceivingConnection.finishDrain
  by_cases hnil : c.pendingSocketData = []
  · simp only [if_pos hnil]
    exact hidle
  · simp only [if_neg hnil]
    unfold scheduleDecode
    split
    · exact hidle
    · rename_i hgo
      have hopen : c.closed = false := by
        rw [← Bool.not_eq_true]
        exact fun hc => hgo (.inr hc)
      show c.held + rank c.queued .looping < c.held + rank c.queued c.phase
      rw [hphase, queued_of_open hopen hnil]
      exact Nat.add_lt_add_left (by decide) _

theorem work_resume (hstable : platform.mtcute.Stable) (h : Framed platform c) (hbusy : c.phase ≠ .idle) :
    (c.resume platform).work < c.work := by
  unfold ReceivingConnection.resume
  cases hphase : c.phase with
  | idle => exact absurd hphase hbusy
  | looping => exact work_drainPending h hphase
  | decoding =>
    cases hcodec : c.codec with
    | none =>
      rcases h with h | ⟨first, codec, n, h⟩
      · exact absurd hphase h.decoding
      · exact absurd (hcodec.symm.trans h.current) (Option.some_ne_none _).symm
    | some codec => exact work_decodeNext hstable h hphase hcodec
  | settled => exact work_finishDrain hphase

theorem chunks_resume : (c.resume platform).chunks = c.chunks := by
  unfold ReceivingConnection.resume
  split
  · rfl
  · unfold ReceivingConnection.drainPending
    split
    · rfl
    · simp only
      split
      · rfl
      · split <;> rfl
  · cases c.codec with
    | none => rfl
    | some codec =>
      show (c.decodeNext platform codec).chunks = c.chunks
      unfold ReceivingConnection.decodeNext
      split <;> rfl
  · unfold ReceivingConnection.finishDrain
    simp only
    split
    · rfl
    · unfold scheduleDecode
      split <;> rfl

/-- **The drain loop comes to rest**: left alone it is idle after finitely many resumptions. -/
theorem Framed.comes_to_rest (hstable : platform.mtcute.Stable) : ∀ (n : Nat) {c : ReceivingConnection},
    c.work ≤ n → Framed platform c → ∃ c', Runs.Reachable (step platform) (fun _ event => event = .resume) c c' ∧
      c'.phase = .idle ∧ c'.chunks = c.chunks
  | 0,     c, hn, h => by
    by_cases hidle : c.phase = .idle
    · exact ⟨c, .init, hidle, rfl⟩
    · exact absurd (work_resume hstable h hidle) (by omega)
  | n + 1, c, hn, h => by
    by_cases hidle : c.phase = .idle
    · exact ⟨c, .init, hidle, rfl⟩
    · have hless := work_resume hstable h hidle
      obtain ⟨c', hrun, hrest, hchunks⟩ := comes_to_rest hstable n (c := c.resume platform) (by omega) (h.resume hstable)
      have hstep : step platform c .resume = some (c.resume platform) := if_neg hidle
      exact ⟨c', Runs.Reachable.head rfl hstep hrun, hrest, hchunks.trans chunks_resume⟩

/-! ## Every chunking -/

theorem framed_of_reachable (hstable : platform.mtcute.Stable)
    (h : Runs.Reachable (step platform) (fun _ _ => True) empty c) : Framed platform c :=
  h.invariant framed_empty (fun _ _ _ _ hI _ hs => framed_step hstable hI hs)

/-- **Framing does not depend on chunking**: whatever chunks a stream comes in and wherever they meet the drain loop, the
loop comes to rest, and then transport and frames are those of the stream decoded at once, hence the same for two ways of
cutting it; and frames encoded under the abridged codec, plain or obfuscated, come back. -/
theorem framing_of_every_chunking (platform : Platform) (hstable : platform.mtcute.Stable) :
    (∀ c, Runs.Reachable (step platform) (fun _ _ => True) empty c →
      (∃ c', Runs.Reachable (step platform) (fun _ event => event = .resume) c c' ∧ c'.phase = .idle ∧
        c'.chunks = c.chunks) ∧
      (c.phase = .idle → (c.codec.map PacketCodec.transport, c.frames) = decodeStream platform c.chunks.flatten)) ∧
    (∀ c c', Runs.Reachable (step platform) (fun _ _ => True) empty c →
      Runs.Reachable (step platform) (fun _ _ => True) empty c' → c.phase = .idle → c'.phase = .idle →
      c.chunks.flatten = c'.chunks.flatten →
      c.codec.map PacketCodec.transport = c'.codec.map PacketCodec.transport ∧ c.frames = c'.frames) ∧
    (∀ frames : List (List UInt8), (∀ frame ∈ frames, frame.length % 4 = 0 ∧ frame.length < 0x4000000) →
      (∀ (reader : Bytes) (n : Nat), reader.unread = frames.flatMap AbridgedPacketCodec.encode → reader.available ≤ n →
        PacketCodec.decodeFrames platform.mtcute platform.grow n (.plain .abridged) reader = frames) ∧
      (∀ (sender receiver : ServerObfuscatedCodec) (reader : Bytes) (n : Nat), receiver.inner = .abridged →
        receiver.decryptor = sender.encryptor → receiver.decodeBuf.unread = [] →
        reader.unread = sender.encodeFrames AbridgedPacketCodec.encode frames → reader.available ≤ n →
        PacketCodec.decodeFrames platform.mtcute platform.grow n (.obfuscated receiver) reader = frames)) := by
  refine ⟨fun c h => ?_, fun c c' h h' hidle hidle' hstream => ?_, fun frames hframes => ⟨fun reader n hreader hn => ?_,
    fun sender receiver reader n hinner hkey hbuf hreader hn => ?_⟩⟩
  · have hframed := framed_of_reachable hstable h
    exact ⟨Framed.comes_to_rest hstable c.work (Nat.le_refl _) hframed, hframed.decodeStream_of_idle hstable⟩
  · have hc := (framed_of_reachable hstable h).decodeStream_of_idle hstable hidle
    have hc' := (framed_of_reachable hstable h').decodeStream_of_idle hstable hidle'
    rw [hstream, ← hc'] at hc
    exact Prod.mk.inj hc
  · exact decodeFrames_abridged hstable platform.grow hframes hreader hn
  · exact decodeFrames_obfuscated hstable platform.grow hframes hinner hkey hbuf hreader hn

def intermediateFrame : List UInt8 → Framing.Outcome (List UInt8)
  | b₀ :: b₁ :: b₂ :: b₃ :: body => AbridgedPacketCodec.findBody 4
    (b₀.toNat ||| (b₁.toNat <<< 8) ||| (b₂.toNat <<< 16) ||| (b₃.toNat <<< 24)) body
  | _ => .incomplete

theorem stable_intermediateFrame : Framing.Stable intermediateFrame where
  stable
    | _ :: _ :: _ :: _ :: _, later, h => AbridgedPacketCodec.findBody_append h later
    | [],                    _,     h => absurd rfl h
    | [_],                   _,     h => absurd rfl h
    | [_, _],                _,     h => absurd rfl h
    | [_, _, _],             _,     h => absurd rfl h
  size
    | _ :: _ :: _ :: _ :: _, _, _, h => by
      obtain ⟨hsize, hle⟩ := AbridgedPacketCodec.findBody_size h
      simp only [length_cons]
      omega

def lengthPrefixed : Platform :=
  { mtcute := { intermediate := intermediateFrame, paddedIntermediate := intermediateFrame }
    crypto := fun _ _ _ => 0
    grow := fun _ held => held
    capacity := 8192 }

def cutThrice : List SocketEvent :=
  [.data [0xee, 0xee], .resume, .resume, .resume, .data [0xee, 0xee, 8, 0], .resume, .resume, .data [0, 0, 1, 2, 3],
    .resume, .resume, .resume, .resume, .data [4, 5, 6, 7, 8], .resume, .resume, .resume, .resume, .resume]

def uncut : List SocketEvent :=
  [.data [0xee, 0xee, 0xee, 0xee, 8, 0, 0, 0, 1, 2, 3, 4, 5, 6, 7, 8], .resume, .resume, .resume, .resume, .resume]

theorem cut_thrice_as_uncut : ∃ c c', Runs.Reachable (step lengthPrefixed) (fun _ _ => True) empty c ∧
    Runs.Reachable (step lengthPrefixed) (fun _ _ => True) empty c' ∧ c.frames = [[1, 2, 3, 4, 5, 6, 7, 8]] ∧
    c.codec.map PacketCodec.transport = c'.codec.map PacketCodec.transport ∧ c.frames = c'.frames := by
  have hrun : (Runs.run (step lengthPrefixed) empty cutThrice).map (fun c => (c.phase, c.chunks.flatten, c.frames)) =
      some (.idle, [0xee, 0xee, 0xee, 0xee, 8, 0, 0, 0, 1, 2, 3, 4, 5, 6, 7, 8], [[1, 2, 3, 4, 5, 6, 7, 8]]) := by
    decide +kernel
  have hrun' : (Runs.run (step lengthPrefixed) empty uncut).map (fun c => (c.phase, c.chunks.flatten)) =
      some (.idle, [0xee, 0xee, 0xee, 0xee, 8, 0, 0, 0, 1, 2, 3, 4, 5, 6, 7, 8]) := by decide +kernel
  obtain ⟨c, hs, hend⟩ := Option.map_eq_some_iff.1 hrun
  obtain ⟨c', hs', hend'⟩ := Option.map_eq_some_iff.1 hrun'
  obtain ⟨hidle, hchunks, hframes⟩ : _ ∧ _ ∧ _ := by simpa only [Prod.mk.injEq] using hend
  obtain ⟨hidle', hchunks'⟩ : _ ∧ _ := by simpa only [Prod.mk.injEq] using hend'
  have hreach : Runs.Reachable (step lengthPrefixed) (fun _ _ => True) empty c :=
    Runs.reachable_of_run (fun _ _ _ => trivial) .init hs
  have hreach' : Runs.Reachable (step lengthPrefixed) (fun _ _ => True) empty c' :=
    Runs.reachable_of_run (fun _ _ _ => trivial) .init hs'
  have hsame := (framing_of_every_chunking lengthPrefixed ⟨stable_intermediateFrame, stable_intermediateFrame⟩).2.1 c c'
    hreach hreach' hidle hidle' (hchunks.trans hchunks'.symm)
  exact ⟨c, c', hreach, hreach', hframes, hsame⟩

end ReceivingConnection

end Crossgram
