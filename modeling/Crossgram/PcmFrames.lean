import Crossgram.Lib.Endian
import Crossgram.Lib.Framing
/-!
# PcmFrames — the downlink of a voice call (packages/platform-crossgram/src/qq-bridge-pcm-transport.ts)

The gateway answers the authentication with a READY frame and then sends frames of PCM.  Two parsers share the socket:
`connectAndAuthenticate` reads the READY frame and hands what is behind it to the connection, which reads the frames.  The
second waits for the rest of a frame; the first does not, where the header of the READY frame has come without its byte.
Unread frames wait in a queue of four.
-/
namespace Crossgram
namespace Pcm

open List

def READY_FRAME_TYPE : UInt8 := 0x80
def DOWNLINK_FRAME_TYPE : UInt8 := 0x81
def PROTOCOL_VERSION : UInt8 := 1
def PCM_FRAME_BYTES : Nat := 1920
def MAX_RETAINED_FRAMES : Nat := 4
def MAX_WIRE_BURST_FRAMES : Nat := 64
def MAX_WIRE_BURST_BYTES : Nat := (5 + PCM_FRAME_BYTES) * MAX_WIRE_BURST_FRAMES

/-! ## Unread frames -/

inductive Fate
  | read (reader : Nat)
  | dropped (waiting : Nat)
  | closed
deriving DecidableEq

structure FrameQueue where
  values : List (List UInt8)
  readers : List Nat
  error : Bool
  log : List (List UInt8 × Fate)
deriving DecidableEq

namespace FrameQueue

def empty : FrameQueue := ⟨[], [], false, []⟩

variable (q : FrameQueue)

def push (value : List UInt8) : FrameQueue :=
  if q.error then q
  else match q.readers with
    | reader :: readers => { q with readers := readers, log := q.log ++ [(value, .read reader)] }
    | [] =>
      if q.values.length = MAX_RETAINED_FRAMES then
        { q with
          values := q.values.tail ++ [value]
          log := q.log ++ (q.values.take 1).map (fun oldest => (oldest, .dropped (q.values.length + 1))) }
      else { q with values := q.values ++ [value] }

def next (reader : Nat) : FrameQueue :=
  match q.values with
  | value :: values => { q with values := values, log := q.log ++ [(value, .read reader)] }
  | [] => if q.error then q else { q with readers := q.readers ++ [reader] }

def abort (reader : Nat) : FrameQueue := { q with readers := q.readers.erase reader }

def close : FrameQueue :=
  if q.error then q
  else { values := [], readers := [], error := true, log := q.log ++ q.values.map (fun value => (value, .closed)) }

def pushed : List (List UInt8) := q.log.map Prod.fst ++ q.values

/-- At most four frames wait, and none while a reader does; a frame is dropped only when more than four wait, or with the
queue. -/
structure Lawful : Prop where
  retained : q.values.length ≤ MAX_RETAINED_FRAMES
  served : q.readers ≠ [] → q.values = []
  dropped : ∀ value waiting, (value, .dropped waiting) ∈ q.log → MAX_RETAINED_FRAMES < waiting
  closed : ∀ value, (value, .closed) ∈ q.log → q.error = true

variable {q}

theorem lawful_empty : empty.Lawful :=
  ⟨Nat.zero_le _, fun h => absurd rfl h, fun _ _ h => (by cases h), fun _ h => (by cases h)⟩

theorem pushed_push (hopen : q.error = false) (value : List UInt8) (hserved : q.readers ≠ [] → q.values = []) :
    (q.push value).pushed = q.pushed ++ [value] ∧ (q.push value).error = false := by
  unfold push
  rw [hopen, if_neg Bool.false_ne_true]
  cases hreaders : q.readers with
  | cons reader readers =>
    refine ⟨?_, rfl⟩
    rw [hreaders] at hserved
    simp [pushed, hserved]
  | nil =>
    dsimp only
    split
    · refine ⟨?_, rfl⟩
      cases hvalues : q.values with
      | nil => simp_all [MAX_RETAINED_FRAMES]
      | cons oldest values => simp [pushed, hvalues]
    · exact ⟨by simp [pushed], rfl⟩

theorem Lawful.push (h : q.Lawful) (hopen : q.error = false) (value : List UInt8) : (q.push value).Lawful := by
  have hclosed : ∀ v, (v, Fate.closed) ∉ q.log := fun v hmem => by
    rw [h.closed v hmem] at hopen
    cases hopen
  unfold FrameQueue.push
  rw [hopen, if_neg Bool.false_ne_true]
  cases hreaders : q.readers with
  | cons reader readers =>
    have hempty : q.values = [] := h.served (by rw [hreaders]; simp)
    refine ⟨h.retained, fun _ => hempty, fun v waiting hmem => ?_, fun v hmem => ?_⟩
    · rcases mem_append.1 hmem with hmem | hmem
      · exact h.dropped v waiting hmem
      · cases mem_singleton.1 hmem
    · rcases mem_append.1 hmem with hmem | hmem
      · exact absurd hmem (hclosed v)
      · cases mem_singleton.1 hmem
  | nil =>
    dsimp only
    split
    · rename_i hfull
      refine ⟨?_, fun hne => absurd rfl hne, fun v waiting hmem => ?_, fun v hmem => ?_⟩
      · show (q.values.tail ++ [value]).length ≤ _
        rw [length_append, length_tail, length_singleton, hfull]
        decide
      · rcases mem_append.1 hmem with hmem | hmem
        · exact h.dropped v waiting hmem
        · obtain ⟨oldest, -, heq⟩ := mem_map.1 hmem
          cases heq
          omega
      · rcases mem_append.1 hmem with hmem | hmem
        · exact absurd hmem (hclosed v)
        · obtain ⟨oldest, -, heq⟩ := mem_map.1 hmem
          cases heq
    · rename_i hroom
      have := h.retained
      refine ⟨?_, fun hne => absurd rfl hne, h.dropped, fun v hmem => absurd hmem (hclosed v)⟩
      show (q.values ++ [value]).length ≤ _
      rw [length_append, length_singleton]
      omega

theorem pushed_next (reader : Nat) : (q.next reader).pushed = q.pushed ∧ (q.next reader).error = q.error := by
  unfold next
  cases hvalues : q.values with
  | cons value values => exact ⟨by simp [pushed, hvalues], rfl⟩
  | nil =>
    dsimp only
    split
    · exact ⟨rfl, rfl⟩
    · exact ⟨by simp [pushed, hvalues], rfl⟩

theorem Lawful.next (h : q.Lawful) (reader : Nat) : (q.next reader).Lawful := by
  unfold FrameQueue.next
  cases hvalues : q.values with
  | cons value values =>
    have hreaders : q.readers = [] := by
      by_contra hne
      rw [h.served hne] at hvalues
      cases hvalues
    have hretained := h.retained
    rw [hvalues, length_cons] at hretained
    refine ⟨Nat.le_of_succ_le hretained, fun hne => absurd hreaders hne, fun v waiting hmem => ?_, fun v hmem => ?_⟩
    · rcases mem_append.1 hmem with hmem | hmem
      · exact h.dropped v waiting hmem
      · cases mem_singleton.1 hmem
    · rcases mem_append.1 hmem with hmem | hmem
      · exact h.closed v hmem
      · cases mem_singleton.1 hmem
  | nil =>
    dsimp only
    split
    · exact h
    · exact ⟨Nat.zero_le _, fun _ => rfl, h.dropped, h.closed⟩

theorem Lawful.abort (h : q.Lawful) (reader : Nat) : (q.abort reader).Lawful := by
  refine ⟨h.retained, fun hne => h.served (fun hnil => hne ?_), h.dropped, h.closed⟩
  show q.readers.erase reader = []
  rw [hnil]
  rfl

theorem pushed_close (hopen : q.error = false) : q.close.pushed = q.pushed ∧ q.close.error = true := by
  unfold close
  rw [hopen, if_neg Bool.false_ne_true]
  refine ⟨?_, rfl⟩
  simp [pushed, Function.comp_def]

theorem Lawful.close (h : q.Lawful) : q.close.Lawful := by
  unfold FrameQueue.close
  split
  · exact h
  · refine ⟨Nat.zero_le _, fun hne => absurd rfl hne, fun v waiting hmem => ?_, fun _ _ => rfl⟩
    rcases mem_append.1 hmem with hmem | hmem
    · exact h.dropped v waiting hmem
    · obtain ⟨value, -, heq⟩ := mem_map.1 hmem
      cases heq

end FrameQueue

/-! ## The socket -/

def frameType (pending : List UInt8) : UInt8 := pending.head?.getD 0

/-- `pending.readUInt32BE(1)`. -/
def frameLength (pending : List UInt8) : Nat := Endian.value ((pending.drop 1).take 4)

/-- One turn of the loop of `onData`. -/
def readFrame (pending : List UInt8) : Framing.Outcome (List UInt8) :=
  if pending.length < 5 then .incomplete
  else if PCM_FRAME_BYTES < frameLength pending then .fails
  else if pending.length < 5 + frameLength pending then .incomplete
  else if frameType pending ≠ DOWNLINK_FRAME_TYPE ∨ frameLength pending ≠ PCM_FRAME_BYTES then .fails
  else .frame ((pending.drop 5).take (frameLength pending)) (5 + frameLength pending)

/-- The socket is in the hands of `connectAndAuthenticate`, of the connection, or destroyed by one of them. -/
inductive PcmStage
  | handshake (ready authWritten : Bool)
  | connected
  | rejected
  | failed
deriving DecidableEq

structure PcmSocket where
  stage : PcmStage
  pending : List UInt8
  received : FrameQueue
deriving DecidableEq

inductive PcmEvent
  | data (chunk : List UInt8)
  | authWritten
  | next (reader : Nat)
  | abort (reader : Nat)
deriving DecidableEq

namespace PcmSocket

def start : PcmSocket := ⟨.handshake false false, [], .empty⟩

variable (s : PcmSocket)

def fail : PcmSocket := { stage := .failed, pending := [], received := s.received.close }

def drain : Nat → PcmSocket → PcmSocket
  | 0,     s => s
  | n + 1, s => match readFrame s.pending with
    | .incomplete         => s
    | .fails              => s.fail
    | .frame payload size => drain n { s with pending := s.pending.drop size, received := s.received.push payload }

def onData (chunk : List UInt8) : PcmSocket :=
  if MAX_WIRE_BURST_BYTES < chunk.length + s.pending.length then s.fail
  else drain (s.pending ++ chunk).length { s with pending := s.pending ++ chunk }

/-- The rejection of `connectAndAuthenticate`. -/
def reject : PcmSocket := { s with stage := .rejected, pending := [] }

/-- `complete`: with READY there and the auth frame written the connection takes over what is behind READY. -/
def complete : PcmSocket :=
  match s.stage with
  | .handshake true true =>
    let connection := { s with stage := .connected, pending := [] }
    if s.pending.drop 6 = [] then connection else connection.onData (s.pending.drop 6)
  | _ => s

/-- The handler of `connectAndAuthenticate`. -/
def handshakeData (authWritten ready : Bool) (chunk : List UInt8) : PcmSocket :=
  if 6 + MAX_WIRE_BURST_BYTES < chunk.length + s.pending.length then s.reject
  else
    let pending := s.pending ++ chunk
    if pending.length < 5 then { s with stage := .handshake ready authWritten, pending := pending }
    else if frameLength pending ≠ 1 ∨ pending.length < 6 ∨ frameType pending ≠ READY_FRAME_TYPE ∨
        pending[5]? ≠ some PROTOCOL_VERSION then s.reject
    else complete { s with stage := .handshake true authWritten, pending := pending }

def step : PcmEvent → PcmSocket
  | .data chunk  => match s.stage with
    | .handshake ready authWritten => s.handshakeData authWritten ready chunk
    | .connected                   => s.onData chunk
    | _                            => s
  | .authWritten => match s.stage with
    | .handshake ready _ => complete { s with stage := .handshake ready true }
    | _                  => s
  | .next reader => match s.stage with
    | .connected | .failed => { s with received := s.received.next reader }
    | _                    => s
  | .abort reader => { s with received := s.received.abort reader }

def run (events : List PcmEvent) : PcmSocket := events.foldl step start

def fits (chunk : List UInt8) : Prop :=
  match s.stage with
  | .handshake _ _ => chunk.length + s.pending.length ≤ 6 + MAX_WIRE_BURST_BYTES
  | .connected     => chunk.length + s.pending.length ≤ MAX_WIRE_BURST_BYTES
  | _              => True

/-- `connectAndAuthenticate` has succeeded. -/
def succeeded : Bool := s.stage = .connected || s.stage = .failed

theorem run_append (before after : List PcmEvent) : run (before ++ after) = after.foldl step (run before) :=
  foldl_append

theorem run_concat (before : List PcmEvent) (e : PcmEvent) : run (before ++ [e]) = (run before).step e :=
  run_append before [e]

end PcmSocket

/-! ## The stream -/

structure WireFrame where
  type : UInt8
  payload : List UInt8
  fits : payload.length < Endian.bound 4

namespace WireFrame

variable (frame : WireFrame)

/-- `frameBuffer`. -/
def bytes : List UInt8 := frame.type :: Endian.big 4 frame.payload.length ++ frame.payload

def isDownlink : Bool := frame.type = DOWNLINK_FRAME_TYPE && frame.payload.length = PCM_FRAME_BYTES

theorem isDownlink_iff :
    frame.isDownlink = true ↔ frame.type = DOWNLINK_FRAME_TYPE ∧ frame.payload.length = PCM_FRAME_BYTES := by
  unfold isDownlink
  rw [Bool.and_eq_true, decide_eq_true_eq, decide_eq_true_eq]

theorem bytes_append (r : List UInt8) :
    frame.bytes ++ r = frame.type :: (Endian.big 4 frame.payload.length ++ (frame.payload ++ r)) := by
  unfold bytes
  simp only [cons_append, append_assoc]

theorem length_bytes : frame.bytes.length = 5 + frame.payload.length := by
  unfold bytes
  rw [length_append, length_cons, Endian.length_big]

end WireFrame

def readyBytes : List UInt8 := [READY_FRAME_TYPE, 0, 0, 0, 1, PROTOCOL_VERSION]

def downlink (frames : List WireFrame) : List UInt8 := readyBytes ++ frames.flatMap WireFrame.bytes

def PcmEvent.chunk? : PcmEvent → Option (List UInt8)
  | .data chunk => some chunk
  | _           => none

def arrived (events : List PcmEvent) : List UInt8 := (events.filterMap PcmEvent.chunk?).flatten

def leadingPayloads (frames : List WireFrame) : List (List UInt8) :=
  (frames.takeWhile WireFrame.isDownlink).map WireFrame.payload

def ChunksFit (events : List PcmEvent) : Prop :=
  ∀ before chunk after, events = before ++ .data chunk :: after → (PcmSocket.run before).fits chunk

/-- At no time are all bytes of READY there but the last. -/
def ReadyUncut (events : List PcmEvent) : Prop :=
  ∀ before after, events = before ++ after → (arrived before).length ≠ 5

theorem ChunksFit.left {before after : List PcmEvent} (h : ChunksFit (before ++ after)) : ChunksFit before :=
  fun b chunk a hb => h b chunk (a ++ after) (by rw [hb, append_assoc, cons_append])

theorem ReadyUncut.left {before after : List PcmEvent} (h : ReadyUncut (before ++ after)) : ReadyUncut before :=
  fun b a hb => h b (a ++ after) (by rw [hb, append_assoc])

theorem arrived_append (before after : List PcmEvent) : arrived (before ++ after) = arrived before ++ arrived after := by
  unfold arrived
  rw [filterMap_append, flatten_append]

theorem arrived_concat (before : List PcmEvent) (e : PcmEvent) :
    arrived (before ++ [e]) = arrived before ++ e.chunk?.getD [] := by
  rw [arrived_append]
  cases e <;> simp [arrived, PcmEvent.chunk?]

/-! ## The decoder -/

theorem frameLength_append {xs : List UInt8} (h : 5 ≤ xs.length) (ys : List UInt8) :
    frameLength (xs ++ ys) = frameLength xs := by
  unfold frameLength
  rw [drop_append_of_le_length (by omega), take_append_of_le_length (by rw [length_drop]; omega)]

theorem frameType_append {xs : List UInt8} (h : 5 ≤ xs.length) (ys : List UInt8) : frameType (xs ++ ys) = frameType xs := by
  cases xs with
  | nil => cases Nat.not_succ_le_zero _ h
  | cons x xs => rfl

/-- **A frame that was read, and a header that fails, stay so** however much more arrives. -/
theorem stable_readFrame : Framing.Stable readFrame := by
  constructor
  · intro xs ys hd
    by_cases hheader : xs.length < 5
    · exact absurd (if_pos hheader) hd
    have hheader' : ¬(xs ++ ys).length < 5 := by
      rw [length_append]
      omega
    unfold readFrame at hd ⊢
    rw [frameLength_append (by omega), frameType_append (by omega)]
    rw [if_neg hheader] at hd ⊢
    rw [if_neg hheader']
    by_cases hlong : PCM_FRAME_BYTES < frameLength xs
    · rw [if_pos hlong, if_pos hlong]
    rw [if_neg hlong] at hd ⊢
    rw [if_neg hlong]
    by_cases hpart : xs.length < 5 + frameLength xs
    · exact absurd (if_pos hpart) hd
    rw [if_neg hpart, if_neg (by rw [length_append]; omega), drop_append_of_le_length (by omega),
      take_append_of_le_length (by rw [length_drop]; omega)]
  · intro xs data size hd
    unfold readFrame at hd
    split at hd
    · cases hd
    split at hd
    · cases hd
    split at hd
    · cases hd
    split at hd
    · cases hd
    · rename_i hpart _
      cases hd
      omega

theorem readFrame_bytes (frame : WireFrame) (r : List UInt8) :
    readFrame (frame.bytes ++ r) =
      if frame.isDownlink = true then .frame frame.payload (5 + PCM_FRAME_BYTES) else .fails := by
  have hbig : (Endian.big 4 frame.payload.length).length = 4 := Endian.length_big 4 _
  have hlength : frameLength (frame.bytes ++ r) = frame.payload.length := by
    unfold frameLength
    rw [frame.bytes_append, drop_succ_cons, drop_zero, take_append_of_le_length (by omega),
      take_of_length_le (by omega), Endian.value_big_of_lt frame.fits]
  have htype : frameType (frame.bytes ++ r) = frame.type := rfl
  have hsize : (frame.bytes ++ r).length = 5 + frame.payload.length + r.length := by
    rw [length_append, frame.length_bytes]
  have hpayload : ((frame.bytes ++ r).drop 5).take frame.payload.length = frame.payload := by
    rw [frame.bytes_append, drop_succ_cons, drop_left' hbig, take_left]
  unfold readFrame
  rw [hlength, htype, hsize, hpayload, if_neg (by omega)]
  by_cases hdownlink : frame.isDownlink = true
  · rw [if_pos hdownlink]
    obtain ⟨hdown, hpcm⟩ := frame.isDownlink_iff.1 hdownlink
    rw [hdown, hpcm, if_neg (by omega), if_neg (by omega), if_neg (by simp)]
  · rw [if_neg hdownlink]
    have hother : frame.type ≠ DOWNLINK_FRAME_TYPE ∨ frame.payload.length ≠ PCM_FRAME_BYTES := by
      by_contra hboth
      rw [not_or, not_not, not_not] at hboth
      exact hdownlink (frame.isDownlink_iff.2 hboth)
    rw [if_pos hother, if_neg (show ¬5 + frame.payload.length + r.length < 5 + frame.payload.length by omega), ite_self]

theorem drop_bytes {frame : WireFrame} (hdownlink : frame.isDownlink = true) (r : List UInt8) :
    (frame.bytes ++ r).drop (5 + PCM_FRAME_BYTES) = r := by
  have hlen := frame.length_bytes
  rw [(frame.isDownlink_iff.1 hdownlink).2] at hlen
  rw [← hlen, drop_left]

/-- **What is read of a stream of frames**: the payloads of the leading downlink frames, and then a failure where another
frame follows. -/
theorem frames_bytes : ∀ frames : List WireFrame,
    Framing.frames readFrame (frames.flatMap WireFrame.bytes) = leadingPayloads frames ∧
      (readFrame (Framing.rest readFrame (frames.flatMap WireFrame.bytes)) = .fails ↔
        ∃ frame ∈ frames, frame.isDownlink = false)
  | [] => by
    refine ⟨rfl, ⟨fun h => (by cases h), ?_⟩⟩
    rintro ⟨_, hmem, _⟩
    cases hmem
  | frame :: frames => by
    obtain ⟨hframes, hrest⟩ := frames_bytes frames
    have hread := readFrame_bytes frame (frames.flatMap WireFrame.bytes)
    rw [flatMap_cons]
    cases hdownlink : frame.isDownlink with
    | true =>
      rw [if_pos hdownlink] at hread
      have hlead : leadingPayloads (frame :: frames) = frame.payload :: leadingPayloads frames := by
        unfold leadingPayloads
        rw [takeWhile_cons_of_pos hdownlink, map_cons]
      rw [Framing.frames_of_frame stable_readFrame hread, Framing.rest_of_frame stable_readFrame hread,
        drop_bytes hdownlink, hframes, hrest, hlead]
      refine ⟨rfl, ?_⟩
      rw [exists_mem_cons_iff, hdownlink]
      simp
    | false =>
      have hnot : ¬frame.isDownlink = true := by rw [hdownlink]; exact Bool.false_ne_true
      rw [if_neg hnot] at hread
      rw [Framing.frames_of_fails hread, Framing.rest_of_fails hread, hread]
      refine ⟨?_, fun _ => ⟨frame, mem_cons_self, hdownlink⟩, fun _ => rfl⟩
      unfold leadingPayloads
      rw [takeWhile_cons_of_neg hnot, map_nil]

theorem header_of_fails : ∀ (frames : List WireFrame) (xs : List UInt8), xs <+: frames.flatMap WireFrame.bytes →
    readFrame (Framing.rest readFrame xs) = .fails →
    ∃ good bad tail, frames = good ++ bad :: tail ∧ (∀ frame ∈ good, frame.isDownlink = true) ∧ bad.isDownlink = false ∧
      (good.flatMap WireFrame.bytes).length + 5 ≤ xs.length
  | frames, xs, hxs, hfails => by
    cases hd : readFrame xs with
    | incomplete =>
      rw [Framing.rest_of_incomplete hd, hd] at hfails
      cases hfails
    | fails =>
      have hheader : 5 ≤ xs.length := by
        by_contra hshort
        unfold readFrame at hd
        rw [if_pos (by omega)] at hd
        cases hd
      have hall := stable_readFrame.extend hxs (by rw [hd]; simp)
      cases frames with
      | nil =>
        rw [hd] at hall
        cases hall
      | cons frame frames =>
        refine ⟨[], frame, frames, rfl, fun _ h => (by cases h), ?_, ?_⟩
        · rw [flatMap_cons, readFrame_bytes, hd] at hall
          rw [← Bool.not_eq_true]
          intro hdownlink
          rw [if_pos hdownlink] at hall
          cases hall
        · rw [flatMap_nil, length_nil, Nat.zero_add]
          exact hheader
    | frame data size =>
      have hall := stable_readFrame.extend hxs (by rw [hd]; simp)
      rw [hd] at hall
      cases frames with
      | nil => cases hall
      | cons frame frames =>
        rw [flatMap_cons] at hall hxs
        rw [readFrame_bytes] at hall
        by_cases hdownlink : frame.isDownlink = true
        · rw [if_pos hdownlink] at hall
          obtain ⟨rfl, rfl⟩ := Framing.Outcome.frame.inj hall
          have hsize := stable_readFrame.size xs _ _ hd
          have htail : xs.drop (5 + PCM_FRAME_BYTES) <+: frames.flatMap WireFrame.bytes := by
            obtain ⟨r, hr⟩ := hxs
            refine ⟨r, ?_⟩
            rw [← drop_bytes hdownlink (frames.flatMap WireFrame.bytes), ← hr, drop_append_of_le_length hsize.2]
          rw [Framing.rest_of_frame stable_readFrame hd] at hfails
          obtain ⟨good, bad, tail, rfl, hgood, hbad, hlen⟩ := header_of_fails frames _ htail hfails
          refine ⟨frame :: good, bad, tail, rfl, ?_, hbad, ?_⟩
          · intro f hf
            rcases mem_cons.1 hf with rfl | hf
            · exact hdownlink
            · exact hgood f hf
          · rw [length_drop] at hlen
            rw [flatMap_cons, length_append, frame.length_bytes, (frame.isDownlink_iff.1 hdownlink).2]
            omega
        · rw [if_neg hdownlink] at hall
          cases hall

/-! ## The connection -/

namespace PcmSocket

/-- **`onData` reads what has arrived**: it pushes the frames, and keeps what is left or fails. -/
theorem drain_spec : ∀ (n : Nat) (s : PcmSocket), s.pending.length ≤ n → s.received.error = false → s.received.Lawful →
    (drain n s).received.pushed = s.received.pushed ++ Framing.frames readFrame s.pending ∧ (drain n s).received.Lawful ∧
      (readFrame (Framing.rest readFrame s.pending) = .incomplete → (drain n s).stage = s.stage ∧
        (drain n s).pending = Framing.rest readFrame s.pending ∧ (drain n s).received.error = false) ∧
      (readFrame (Framing.rest readFrame s.pending) = .fails → (drain n s).stage = .failed)
  | 0, s, hn, hopen, hlawful => by
    have hnil : s.pending = [] := eq_nil_of_length_eq_zero (Nat.le_zero.1 hn)
    rw [hnil]
    refine ⟨(append_nil _).symm, hlawful, fun _ => ⟨rfl, hnil, hopen⟩, fun h => (by cases h)⟩
  | n + 1, s, hn, hopen, hlawful => by
    unfold drain
    cases hd : readFrame s.pending with
    | incomplete =>
      dsimp only
      rw [Framing.frames_of_incomplete hd, Framing.rest_of_incomplete hd, hd]
      refine ⟨(append_nil _).symm, hlawful, fun _ => ⟨rfl, rfl, hopen⟩, fun h => (by cases h)⟩
    | fails =>
      dsimp only
      rw [Framing.frames_of_fails hd, Framing.rest_of_fails hd, hd, append_nil]
      refine ⟨(FrameQueue.pushed_close hopen).1, hlawful.close, fun h => (by cases h), fun _ => rfl⟩
    | frame payload size =>
      dsimp only
      have hsize := stable_readFrame.size _ _ _ hd
      obtain ⟨hpushed, hopen'⟩ := FrameQueue.pushed_push hopen payload hlawful.served
      have hrec := drain_spec n { s with pending := s.pending.drop size, received := s.received.push payload }
        (by rw [length_drop]; omega) hopen' (hlawful.push hopen payload)
      dsimp only at hrec
      rw [Framing.frames_of_frame stable_readFrame hd, Framing.rest_of_frame stable_readFrame hd]
      rw [hpushed, append_assoc, singleton_append] at hrec
      exact hrec

/-- The socket follows the bytes that have arrived, until it is rejected. -/
inductive Follows (bytes : List UInt8) (auth : Bool) : PcmSocket → Prop
  | handshake (ready : Bool) (received : FrameQueue) (hready : ready = true ↔ 6 ≤ bytes.length)
      (hwaits : ¬(ready = true ∧ auth = true)) (hfits : bytes.length ≤ 6 + MAX_WIRE_BURST_BYTES)
      (hpushed : received.pushed = []) (hopen : received.error = false) (hlawful : received.Lawful) :
      Follows bytes auth ⟨.handshake ready auth, bytes, received⟩
  | connected (received : FrameQueue) (hauth : auth = true) (hready : 6 ≤ bytes.length)
      (hwaits : readFrame (Framing.rest readFrame (bytes.drop 6)) = .incomplete)
      (hpushed : received.pushed = Framing.frames readFrame (bytes.drop 6)) (hopen : received.error = false)
      (hlawful : received.Lawful) :
      Follows bytes auth ⟨.connected, Framing.rest readFrame (bytes.drop 6), received⟩
  | failed (pending : List UInt8) (received : FrameQueue) (hauth : auth = true) (hready : 6 ≤ bytes.length)
      (hfails : readFrame (Framing.rest readFrame (bytes.drop 6)) = .fails)
      (hpushed : received.pushed = Framing.frames readFrame (bytes.drop 6)) (hlawful : received.Lawful) :
      Follows bytes auth ⟨.failed, pending, received⟩

theorem onData_follows {bytes chunk : List UInt8} {received : FrameQueue} (hready : 6 ≤ bytes.length)
    (hpushed : received.pushed = Framing.frames readFrame (bytes.drop 6)) (hopen : received.error = false)
    (hlawful : received.Lawful)
    (hfits : chunk.length + (Framing.rest readFrame (bytes.drop 6)).length ≤ MAX_WIRE_BURST_BYTES) :
    Follows (bytes ++ chunk) true
      (onData ⟨.connected, Framing.rest readFrame (bytes.drop 6), received⟩ chunk) := by
  have hdrop : (bytes ++ chunk).drop 6 = bytes.drop 6 ++ chunk := drop_append_of_le_length hready
  obtain ⟨hframes, hrest⟩ := Framing.frames_append stable_readFrame _ (bytes.drop 6) chunk (Nat.le_refl _)
  have hready' : 6 ≤ (bytes ++ chunk).length := by
    rw [length_append]
    omega
  unfold onData
  dsimp only
  rw [if_neg (by omega)]
  obtain ⟨hpush, hlaw, hmore, hfail⟩ := drain_spec (Framing.rest readFrame (bytes.drop 6) ++ chunk).length
    ⟨.connected, Framing.rest readFrame (bytes.drop 6) ++ chunk, received⟩ (Nat.le_refl _) hopen hlawful
  dsimp only at hpush hmore hfail
  rw [hpushed, ← hframes, ← hdrop] at hpush
  rw [← hrest, ← hdrop] at hmore hfail
  generalize drain (Framing.rest readFrame (bytes.drop 6) ++ chunk).length _ = t at hpush hlaw hmore hfail ⊢
  obtain ⟨stage, pending, queue⟩ := t
  rcases Framing.decode_rest stable_readFrame _ ((bytes ++ chunk).drop 6) (Nat.le_refl _) with hd | hd
  · obtain ⟨hst, hpe, hop⟩ := hmore hd
    dsimp only at hst hpe hop hpush hlaw
    subst hst hpe
    exact .connected queue rfl hready' hd hpush hop hlaw
  · have hst := hfail hd
    dsimp only at hst hpush hlaw
    subst hst
    exact .failed pending queue rfl hready' hd hpush hlaw

/-- **`complete` hands over what is behind READY.** -/
theorem complete_follows {bytes : List UInt8} {received : FrameQueue} (hready : 6 ≤ bytes.length)
    (hfits : bytes.length ≤ 6 + MAX_WIRE_BURST_BYTES) (hpushed : received.pushed = []) (hopen : received.error = false)
    (hlawful : received.Lawful) : Follows bytes true (complete ⟨.handshake true true, bytes, received⟩) := by
  unfold complete
  dsimp only
  by_cases hnil : bytes.drop 6 = []
  · rw [if_pos hnil]
    have hwaits : readFrame (Framing.rest readFrame (bytes.drop 6)) = .incomplete := by
      rw [hnil]
      rfl
    have hpushed' : received.pushed = Framing.frames readFrame (bytes.drop 6) := by
      rw [hnil]
      exact hpushed
    have hconnected := Follows.connected received rfl hready hwaits hpushed' hopen hlawful
    rw [hnil] at hconnected
    exact hconnected
  · rw [if_neg hnil]
    have htake : (bytes.take 6).drop 6 = [] := drop_of_length_le (by rw [length_take]; omega)
    have hdata := @onData_follows (bytes.take 6) (bytes.drop 6) received
    rw [htake, take_append_drop] at hdata
    exact hdata (by rw [length_take]; omega) hpushed hopen hlawful
      (by rw [length_drop]; show bytes.length - 6 + 0 ≤ _; omega)

theorem handshakeData_follows {bytes chunk tail : List UInt8} {auth ready : Bool} {received : FrameQueue}
    (hstream : bytes ++ chunk <+: readyBytes ++ tail) (hsplit : (bytes ++ chunk).length ≠ 5)
    (hready : ready = true ↔ 6 ≤ bytes.length) (hfits : chunk.length + bytes.length ≤ 6 + MAX_WIRE_BURST_BYTES)
    (hpushed : received.pushed = []) (hopen : received.error = false) (hlawful : received.Lawful) :
    Follows (bytes ++ chunk) auth
      (handshakeData ⟨.handshake ready auth, bytes, received⟩ auth ready chunk) := by
  have hlength : (bytes ++ chunk).length = chunk.length + bytes.length := by
    rw [length_append]
    omega
  unfold handshakeData
  dsimp only
  rw [if_neg (by omega)]
  by_cases hshort : (bytes ++ chunk).length < 5
  · rw [if_pos hshort]
    have hnot : ready = false := by
      rw [← Bool.not_eq_true, hready]
      omega
    refine .handshake ready received ?_ ?_ (by omega) hpushed hopen hlawful
    · rw [hnot]
      exact ⟨fun h => (by cases h), fun h => (by omega)⟩
    · rw [hnot]
      exact fun h => (by cases h.1)
  · rw [if_neg hshort]
    obtain ⟨rest, hrest⟩ : readyBytes <+: bytes ++ chunk :=
      prefix_of_prefix_length_le (prefix_append _ _) hstream (by show 6 ≤ _; omega)
    have hframe : ¬(frameLength (readyBytes ++ rest) ≠ 1 ∨ (readyBytes ++ rest).length < 6 ∨
        frameType (readyBytes ++ rest) ≠ READY_FRAME_TYPE ∨ (readyBytes ++ rest)[5]? ≠ some PROTOCOL_VERSION) := by
      rintro (h | h | h | h)
      · exact h rfl
      · rw [hrest] at h
        omega
      · exact h rfl
      · exact h rfl
    rw [hrest] at hframe
    rw [if_neg hframe]
    cases auth with
    | false =>
      exact .handshake true received ⟨fun _ => (by omega), fun _ => rfl⟩ (fun h => (by cases h.2)) (by omega) hpushed hopen
        hlawful
    | true => exact complete_follows (by omega) (by omega) hpushed hopen hlawful

/-- **One step follows** what has arrived, unless the READY frame is there without its byte. -/
theorem step_follows {bytes tail : List UInt8} {auth : Bool} {s : PcmSocket} (hs : Follows bytes auth s) (e : PcmEvent)
    (hstream : bytes ++ e.chunk?.getD [] <+: readyBytes ++ tail) (hsplit : (bytes ++ e.chunk?.getD []).length ≠ 5)
    (hfits : ∀ chunk, e = .data chunk → s.fits chunk) :
    Follows (bytes ++ e.chunk?.getD []) (auth || e == .authWritten) (s.step e) := by
  cases e with
  | data chunk =>
    have hchunk := hfits chunk rfl
    have hauth' : (auth || (PcmEvent.data chunk == .authWritten)) = auth := Bool.or_false auth
    rw [hauth']
    cases hs with
    | handshake ready received hready hwaits hshort hpushed hopen hlawful =>
      exact handshakeData_follows hstream hsplit hready hchunk hpushed hopen hlawful
    | connected received hauth hready hwaits hpushed hopen hlawful =>
      subst hauth
      exact onData_follows hready hpushed hopen hlawful hchunk
    | failed pending received hauth hready hfails hpushed hlawful =>
      subst hauth
      have hdrop : (bytes ++ chunk).drop 6 = bytes.drop 6 ++ chunk := drop_append_of_le_length hready
      obtain ⟨hframes, hrest⟩ := Framing.frames_append stable_readFrame _ (bytes.drop 6) chunk (Nat.le_refl _)
      have hmore := (stable_readFrame.extend (prefix_append _ chunk) (by rw [hfails]; simp)).trans hfails
      rw [Framing.frames_of_fails hmore, append_nil, ← hdrop] at hframes
      rw [Framing.rest_of_fails hmore, ← hdrop] at hrest
      refine .failed pending received rfl (by show 6 ≤ (bytes ++ chunk).length; rw [length_append]; omega) ?_ ?_ hlawful
      · show readFrame (Framing.rest readFrame ((bytes ++ chunk).drop 6)) = _
        rw [hrest]
        exact hmore
      · show received.pushed = Framing.frames readFrame ((bytes ++ chunk).drop 6)
        rw [hframes]
        exact hpushed
  | authWritten =>
    have hauth' : (auth || (PcmEvent.authWritten == .authWritten)) = true := Bool.or_true auth
    have hbytes : bytes ++ (PcmEvent.authWritten.chunk?).getD [] = bytes := append_nil bytes
    rw [hauth', hbytes]
    cases hs with
    | handshake ready received hready hwaits hshort hpushed hopen hlawful =>
      cases ready with
      | true => exact complete_follows (hready.1 rfl) hshort hpushed hopen hlawful
      | false => exact .handshake false received hready (fun h => (by cases h.1)) hshort hpushed hopen hlawful
    | connected received hauth hready hwaits hpushed hopen hlawful =>
      exact .connected received rfl hready hwaits hpushed hopen hlawful
    | failed pending received hauth hready hfails hpushed hlawful =>
      exact .failed pending received rfl hready hfails hpushed hlawful
  | next reader =>
    have hauth' : (auth || (PcmEvent.next reader == .authWritten)) = auth := Bool.or_false auth
    have hbytes : bytes ++ ((PcmEvent.next reader).chunk?).getD [] = bytes := append_nil bytes
    rw [hauth', hbytes]
    cases hs with
    | handshake ready received hready hwaits hshort hpushed hopen hlawful =>
      exact .handshake ready received hready hwaits hshort hpushed hopen hlawful
    | connected received hauth hready hwaits hpushed hopen hlawful =>
      obtain ⟨hpushed', hopen'⟩ := received.pushed_next reader
      exact .connected _ hauth hready hwaits (hpushed'.trans hpushed) (hopen'.trans hopen) (hlawful.next reader)
    | failed pending received hauth hready hfails hpushed hlawful =>
      exact .failed pending _ hauth hready hfails ((received.pushed_next reader).1.trans hpushed) (hlawful.next reader)
  | abort reader =>
    have hauth' : (auth || (PcmEvent.abort reader == .authWritten)) = auth := Bool.or_false auth
    have hbytes : bytes ++ ((PcmEvent.abort reader).chunk?).getD [] = bytes := append_nil bytes
    rw [hauth', hbytes]
    cases hs with
    | handshake ready received hready hwaits hshort hpushed hopen hlawful =>
      exact .handshake ready _ hready hwaits hshort hpushed hopen (hlawful.abort reader)
    | connected received hauth hready hwaits hpushed hopen hlawful =>
      exact .connected _ hauth hready hwaits hpushed hopen (hlawful.abort reader)
    | failed pending received hauth hready hfails hpushed hlawful =>
      exact .failed pending _ hauth hready hfails hpushed (hlawful.abort reader)

/-- **A whole run follows** what has arrived. -/
theorem run_follows (events : List PcmEvent) (tail : List UInt8) (hstream : arrived events <+: readyBytes ++ tail)
    (hfits : ChunksFit events) (huncut : ReadyUncut events) :
    Follows (arrived events) (decide (.authWritten ∈ events)) (run events) := by
  induction events using List.reverseRecOn with
  | nil =>
    refine .handshake false .empty ⟨fun h => (by cases h), fun h => (by cases h)⟩ (fun h => (by cases h.1)) (Nat.zero_le _)
      rfl rfl FrameQueue.lawful_empty
  | append_singleton events e ih =>
    have hconcat := arrived_concat events e
    have hbefore : arrived events <+: readyBytes ++ tail := by
      rw [hconcat] at hstream
      exact (prefix_append _ _).trans hstream
    have hstep := step_follows (ih hbefore hfits.left huncut.left) e (by rw [← hconcat]; exact hstream)
      (by rw [← hconcat]; exact huncut _ [] (append_nil _).symm) (fun chunk he => hfits events chunk [] (by rw [he]))
    have hmem : decide (PcmEvent.authWritten ∈ events ++ [e]) =
        (decide (PcmEvent.authWritten ∈ events) || e == .authWritten) := by
      rw [Bool.eq_iff_iff, Bool.or_eq_true, decide_eq_true_eq, decide_eq_true_eq, beq_iff_eq, mem_append,
        mem_singleton, eq_comm (a := PcmEvent.authWritten)]
    rw [run_concat, hconcat, hmem]
    exact hstep

theorem rejected_stays {s : PcmSocket} (h : s.stage = .rejected) (e : PcmEvent) : (step s e).stage = .rejected := by
  unfold step
  cases e <;> rw [h] <;> exact h

/-- **READY without its byte is rejected.** -/
theorem run_rejected (events : List PcmEvent) (tail : List UInt8) (hstream : arrived events <+: readyBytes ++ tail)
    (hfits : ChunksFit events) (hcut : (arrived events).length = 5) : (run events).stage = .rejected := by
  induction events using List.reverseRecOn with
  | nil => cases hcut
  | append_singleton events e ih =>
    have hconcat := arrived_concat events e
    have hbefore : arrived events <+: readyBytes ++ tail := by
      rw [hconcat] at hstream
      exact (prefix_append _ _).trans hstream
    rw [run_concat]
    by_cases hthere : (arrived events).length = 5
    · exact rejected_stays (ih hbefore hfits.left hthere) e
    rw [hconcat, length_append] at hcut
    cases e with
    | data chunk =>
      have huncut : ReadyUncut events := fun b a hb hlen => by
        rw [hb, arrived_append, length_append] at hthere hcut
        omega
      have hfollows := run_follows events tail hbefore hfits.left huncut
      have hchunk := hfits events chunk [] rfl
      generalize run events = s at hfollows hchunk
      have hbytes : (arrived events ++ chunk).length = 5 := by
        rw [length_append]
        exact hcut
      cases hfollows with
      | handshake ready received hready hwaits hshort hpushed hopen hlawful =>
        show (handshakeData _ _ ready chunk).stage = _
        have hroom : ¬6 + MAX_WIRE_BURST_BYTES < chunk.length + (arrived events).length := Nat.not_lt.2 hchunk
        unfold handshakeData
        dsimp only
        rw [if_neg hroom, if_neg (by omega), if_pos (.inr (.inl (by omega)))]
        rfl
      | connected received hauth hready hwaits hpushed hopen hlawful => omega
      | failed pending received hauth hready hfails hpushed hlawful => omega
    | authWritten => exact absurd hcut hthere
    | next reader => exact absurd hcut hthere
    | abort reader => exact absurd hcut hthere

end PcmSocket

/-! ## Delivery -/

/-- **PCM framing**: the handshake succeeds as soon as READY is there and the auth frame is written, the payloads of the
leading downlink frames are pushed in order, the connection fails when a frame is another one, not before its header is
there, and the readers are served lawfully. -/
structure FramesDelivered (events : List PcmEvent) (frames : List WireFrame) : Prop where
  succeeds : ∀ before after, events = before ++ after →
    ((PcmSocket.run before).succeeded = true ↔ .authWritten ∈ before ∧ 6 ≤ (arrived before).length)
  pushed : (PcmSocket.run events).received.pushed = leadingPayloads frames
  fails : (PcmSocket.run events).stage = .failed ↔ ∃ frame ∈ frames, frame.isDownlink = false
  header : ∀ before after, events = before ++ after → (PcmSocket.run before).stage = .failed →
    ∃ good bad rest, frames = good ++ bad :: rest ∧ (∀ frame ∈ good, frame.isDownlink = true) ∧ bad.isDownlink = false ∧
      (readyBytes ++ good.flatMap WireFrame.bytes).length + 5 ≤ (arrived before).length
  lawful : ∀ before after, events = before ++ after → (PcmSocket.run before).received.Lawful
  closed : ∀ before after, events = before ++ after → (PcmSocket.run before).received.error = true →
    (PcmSocket.run before).stage = .failed

theorem framesDelivered_of_uncut {events : List PcmEvent} {frames : List WireFrame}
    (hstream : arrived events = downlink frames) (hauth : .authWritten ∈ events) (hfits : ChunksFit events)
    (huncut : ReadyUncut events) : FramesDelivered events frames := by
  have hfollows : ∀ before after, events = before ++ after →
      arrived before <+: downlink frames ∧
        PcmSocket.Follows (arrived before) (decide (.authWritten ∈ before)) (PcmSocket.run before) := by
    rintro before after rfl
    have hbefore : arrived before <+: downlink frames := by
      rw [← hstream, arrived_append]
      exact prefix_append _ _
    exact ⟨hbefore, PcmSocket.run_follows before _ hbefore hfits.left huncut.left⟩
  have hdrop : (arrived events).drop 6 = frames.flatMap WireFrame.bytes := by
    rw [hstream]
    rfl
  have hready : 6 ≤ (arrived events).length := by
    rw [hstream]
    exact Nat.le_add_left 6 _
  obtain ⟨hframes, hfails⟩ := frames_bytes frames
  have hwhole := (hfollows events [] (append_nil _).symm).2
  rw [decide_eq_true hauth] at hwhole
  refine ⟨fun before after hsplit => ?_, ?_, ?_, fun before after hsplit hstage => ?_, fun before after hsplit => ?_,
    fun before after hsplit herror => ?_⟩
  · have hbefore := (hfollows before after hsplit).2
    generalize PcmSocket.run before = s at hbefore
    rw [← decide_eq_true_iff (p := .authWritten ∈ before)]
    generalize decide (PcmEvent.authWritten ∈ before) = auth at hbefore
    cases hbefore with
    | handshake ready received hready hwaits =>
      refine ⟨fun h => (by cases h), fun h => absurd ⟨hready.2 h.2, h.1⟩ hwaits⟩
    | connected received hauth hready => exact ⟨fun _ => ⟨hauth, hready⟩, fun _ => rfl⟩
    | failed pending received hauth hready => exact ⟨fun _ => ⟨hauth, hready⟩, fun _ => rfl⟩
  · generalize PcmSocket.run events = s at hwhole
    cases hwhole with
    | handshake ready received hready' hwaits => exact absurd ⟨hready'.2 hready, rfl⟩ hwaits
    | connected received _ _ _ hpushed => rw [hpushed, hdrop, hframes]
    | failed pending received _ _ _ hpushed => rw [hpushed, hdrop, hframes]
  · rw [← hfails, ← hdrop]
    generalize PcmSocket.run events = s at hwhole
    cases hwhole with
    | handshake ready received hready' hwaits => exact absurd ⟨hready'.2 hready, rfl⟩ hwaits
    | connected received _ _ hwaits =>
      rw [hwaits]
      exact ⟨fun h => (by cases h), fun h => (by cases h)⟩
    | failed pending received _ _ hfailed => exact ⟨fun _ => hfailed, fun _ => rfl⟩
  · obtain ⟨hpre, hbefore⟩ := hfollows before after hsplit
    generalize PcmSocket.run before = s at hbefore hstage
    cases hbefore with
    | handshake => cases hstage
    | connected => cases hstage
    | failed pending received hauth hready hfailed =>
      obtain ⟨rest, hrest⟩ := hpre
      have htail : (arrived before).drop 6 <+: frames.flatMap WireFrame.bytes := by
        refine ⟨rest, ?_⟩
        rw [← drop_append_of_le_length hready, hrest]
        rfl
      obtain ⟨good, bad, tail, hsplit', hgood, hbad, hlen⟩ := header_of_fails frames _ htail hfailed
      refine ⟨good, bad, tail, hsplit', hgood, hbad, ?_⟩
      rw [length_drop] at hlen
      rw [length_append]
      show 6 + _ + 5 ≤ _
      omega
  · have hbefore := (hfollows before after hsplit).2
    generalize PcmSocket.run before = s at hbefore
    cases hbefore with
    | handshake _ _ _ _ _ _ _ hlawful => exact hlawful
    | connected _ _ _ _ _ _ hlawful => exact hlawful
    | failed _ _ _ _ _ _ hlawful => exact hlawful
  · have hbefore := (hfollows before after hsplit).2
    generalize PcmSocket.run before = s at hbefore herror
    cases hbefore with
    | handshake _ _ _ _ _ _ hopen => exact absurd (herror.symm.trans hopen) (fun h => (by cases h))
    | connected _ _ _ _ _ hopen => exact absurd (herror.symm.trans hopen) (fun h => (by cases h))
    | failed => rfl

/-- **The frames are delivered however the stream is cut, except behind the fifth byte of READY**, where it is rejected. -/
theorem framesDelivered_iff (events : List PcmEvent) (frames : List WireFrame)
    (hstream : arrived events = downlink frames) (hauth : .authWritten ∈ events) (hfits : ChunksFit events) :
    FramesDelivered events frames ↔ ReadyUncut events := by
  refine ⟨fun h before after hsplit hcut => ?_, framesDelivered_of_uncut hstream hauth hfits⟩
  have hbefore : arrived before <+: downlink frames := by
    rw [← hstream, hsplit, arrived_append]
    exact prefix_append _ _
  rw [hsplit] at hfits
  have hrejected := PcmSocket.run_rejected before _ hbefore hfits.left hcut
  have hlast : (after.foldl PcmSocket.step (PcmSocket.run before)).stage = .rejected :=
    foldlRecOn (motive := fun (s : PcmSocket) => s.stage = .rejected) after _ hrejected
      (fun _ h e _ => PcmSocket.rejected_stays h e)
  rw [← PcmSocket.run_append, ← hsplit] at hlast
  have hready : 6 ≤ (arrived events).length := by
    rw [hstream]
    exact Nat.le_add_left 6 _
  have hsucceeds := (h.succeeds events [] (append_nil _).symm).2 ⟨hauth, hready⟩
  unfold PcmSocket.succeeded at hsucceeds
  rw [hlast] at hsucceeds
  cases hsucceeds

theorem framesDelivered_otherFrame :
    FramesDelivered [.data (readyBytes ++ [0x82, 0]), .authWritten, .data [0, 0, 0]] [⟨0x82, [], by decide⟩] ∧
      PcmSocket.run [.data (readyBytes ++ [0x82, 0]), .authWritten, .data [0, 0, 0]] = ⟨.failed, [], ⟨[], [], true, []⟩⟩ := by
  refine ⟨(framesDelivered_iff _ _ rfl (by decide) (fun before chunk after hsplit => ?_)).2 (fun before after hsplit => ?_),
    by decide⟩
  · rcases before with _ | ⟨_, _ | ⟨_, _ | ⟨_, before⟩⟩⟩
    · cases hsplit
      exact (by decide : 8 + 0 ≤ 6 + MAX_WIRE_BURST_BYTES)
    · cases hsplit
    · cases hsplit
      exact (by decide : 3 + 2 ≤ MAX_WIRE_BURST_BYTES)
    · cases before <;> cases hsplit
  · rcases before with _ | ⟨_, _ | ⟨_, _ | ⟨_, before⟩⟩⟩
    · decide
    · cases hsplit
      decide
    · cases hsplit
      decide
    · cases before with
      | nil =>
        cases hsplit
        decide
      | cons _ _ => cases hsplit

/-- READY in two chunks, its byte in the second, is rejected. -/
theorem framesDelivered_readyCut :
    ¬∀ (events : List PcmEvent) (frames : List WireFrame), arrived events = downlink frames → .authWritten ∈ events →
      ChunksFit events → FramesDelivered events frames := by
  intro h
  have hfits : ChunksFit [.authWritten, .data [READY_FRAME_TYPE, 0, 0, 0, 1], .data [PROTOCOL_VERSION]] := by
    intro before chunk after hsplit
    rcases before with _ | ⟨_, _ | ⟨_, _ | ⟨_, before⟩⟩⟩
    · cases hsplit
    · cases hsplit
      exact (by decide : 5 + 0 ≤ 6 + MAX_WIRE_BURST_BYTES)
    · cases hsplit
      trivial
    · cases before <;> cases hsplit
  have hdelivered := h [.authWritten, .data [READY_FRAME_TYPE, 0, 0, 0, 1], .data [PROTOCOL_VERSION]] [] rfl (by decide) hfits
  have hsucceeds := (hdelivered.succeeds _ [] (append_nil _).symm).2 (by decide)
  exact absurd hsucceeds (by decide)

end Pcm
end Crossgram
