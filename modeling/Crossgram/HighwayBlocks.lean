import Crossgram.HighwayWriter
import Mathlib.Data.List.Nodup
/-!
# HighwayBlocks — what the writer has encoded, and what is under way

The invariant of an upload, and what a flush and the copying of a chunk do to it.  The encoded blocks, the buffer and
what the call under way still has to copy are the written bytes.  Without a failure the bytes that were scheduled are
those whose progress was reported and those of the posts under way.
-/
namespace Crossgram
namespace HighwayUpload

open List

variable (codecs : HighwayCodecs) (plan : QQHighwayUploadPlan)

/-! ## What holds between the steps -/

def encodedBytes (encoded : List HighwayFrame) : List UInt8 := encoded.flatMap (fun frame => frame.body)

/-- The blocks follow one another: sequence numbers count up, and every segment begins where the one before it ended. -/
def Tiled (encoded : List HighwayFrame) : Prop :=
  ∀ k frame, encoded[k]? = some frame → frame.head.base.sequence = plan.sequenceStart + k ∧
    frame.head.segment.offset = (encodedBytes (encoded.take k)).length ∧
    frame.head.segment.length = frame.body.length ∧ frame.head.segment.chunkMd5 = codecs.md5 frame.body ∧
    0 < frame.body.length ∧ ∃ head, codecs.toBinary frame.head = .ok head ∧
      frame.bytes = [0x28] ++ uint32BE head.length ++ uint32BE frame.body.length ++ head ++ frame.body ++ [0x29]

structure Tasks (inFlight : List HighwayTask) (settled : List (Nat × Option String)) (blockIndex : Nat)
    (failure : Option String) : Prop where
  nodup : (inFlight.map (fun task => task.block)).Nodup
  known : ∀ task ∈ inFlight, task.block < blockIndex
  past : ∀ result ∈ settled, result.1 < blockIndex
  fresh : ∀ task ∈ inFlight, ∀ result ∈ settled, result.1 ≠ task.block
  positive : ∀ task ∈ inFlight, 0 < task.length
  thrown : ∀ result ∈ settled, result.2 ≠ none → failure ≠ none

/-- The progress reported so far goes up to `uploaded`. -/
structure Reported (progress : List Nat) (uploaded : Nat) : Prop where
  increasing : progress.Pairwise (fun m n => m < n)
  bounded : ∀ n ∈ progress, n ≤ uploaded
  last : uploaded = 0 ∨ progress.getLast? = some uploaded

def posting (inFlight : List HighwayTask) : Nat :=
  ((inFlight.filter (fun task => !task.reporting)).map (fun task => task.length)).sum

def firstPosting : Option HighwayCall → Nat
  | some (.first task _) => if task.reporting then 0 else task.length
  | _                    => 0

def firstPosts (call : Option HighwayCall) (k : Nat) : Prop :=
  ∃ task next, call = some (.first task next) ∧ task.block = k ∧ task.reporting = false

def Accounted (s : HighwayUpload) : Prop :=
  s.rejected = none → s.writer.failure = none →
    s.writer.uploaded + posting s.writer.inFlight + firstPosting s.call = s.writer.scheduled ∧
    ∀ k < s.encoded.length, (∃ ack, (k, ack) ∈ s.acknowledged) ∨
      (∃ task ∈ s.writer.inFlight, task.block = k ∧ task.reporting = false) ∨ firstPosts s.call k

def restOf : Option HighwayCall → List UInt8
  | some (.first _ next)  => next.rest
  | some (.flushed next)  => next.rest
  | some (.racing _ next) => next.rest
  | _                     => []

/-- The call under way is one of `complete`. -/
def finishing : Option HighwayCall → Bool
  | some (.first _ .complete)  => true
  | some (.flushed .complete)  => true
  | some (.racing _ .complete) => true
  | some .completing           => true
  | some (.draining _)         => true
  | _                          => false

def CallTasks (inFlight : List HighwayTask) : Option HighwayCall → Prop
  | some (.first task _)    => inFlight = [] ∧ task.block = 0 ∧ 0 < task.length
  | some (.racing blocks _) => (inFlight.map (fun task => task.block)).Sublist blocks ∧
      blocks.length ≤ highwayMaxInFlightBlocks
  | some (.draining blocks) => inFlight.length < highwayMaxInFlightBlocks ∧ ∀ task ∈ inFlight, task.block ∈ blocks
  | _                       => inFlight.length < highwayMaxInFlightBlocks

def Awaited (inFlight : List HighwayTask) (settled : List (Nat × Option String)) : Option HighwayCall → Prop
  | some (.racing blocks _) => blocks ≠ [] ∧ ∀ block ∈ blocks,
      block ∈ inFlight.map (fun task => task.block) ∨ block ∈ settled.map (fun result => result.1)
  | some (.draining blocks) => ∀ block ∈ blocks,
      block ∈ inFlight.map (fun task => task.block) ∨ block ∈ settled.map (fun result => result.1)
  | _                       => True

/-- What `complete` has made sure of when it resolves. -/
structure Complete (s : HighwayUpload) : Prop where
  closed : s.writer.closed = true
  idle : s.call = none
  drained : s.writer.inFlight = []
  bytes : encodedBytes s.encoded = s.written
  size : s.written.length = plan.fileSize
  acknowledged : ∀ k < s.encoded.length, ∃ ack, (k, ack) ∈ s.acknowledged
  uploaded : s.writer.uploaded = plan.fileSize

structure Inv (s : HighwayUpload) : Prop where
  size : 0 < s.writer.bufferSize
  fits : s.writer.buffered.length ≤ s.writer.bufferSize
  tiled : Tiled codecs plan s.encoded
  counts : s.rejected = none → s.writer.blockIndex = s.encoded.length ∧
    s.writer.scheduled = (encodedBytes s.encoded).length ∧ s.writer.received = s.written.length
  bytes : (s.call ≠ none ∨ (s.rejected = none ∧ s.writer.closed = false)) →
    encodedBytes s.encoded ++ s.writer.buffered ++ restOf s.call = s.written
  copied : encodedBytes s.encoded <+: s.written
  under : s.call ≠ none → s.rejected = none ∧ s.completed = false ∧ s.writer.buffered = []
  finish : finishing s.call = true → s.writer.received = plan.fileSize
  tasks : Tasks s.writer.inFlight s.settled s.writer.blockIndex s.writer.failure
  stage : CallTasks s.writer.inFlight s.call
  awaited : Awaited s.writer.inFlight s.settled s.call
  accounted : s.Accounted
  reported : Reported s.progress s.writer.uploaded
  acks : ∀ k ack, (k, ack) ∈ s.acknowledged → ack.server ∈ plan.servers ∧ Acknowledges codecs ack
  complete : s.completed = true → s.Complete plan

/-! ### Tasks -/

variable {codecs plan} {s s' : HighwayUpload} {inFlight : List HighwayTask} {settled : List (Nat × Option String)}
  {blockIndex : Nat} {failure : Option String}

theorem Tasks.push (h : Tasks inFlight settled blockIndex failure) {length : Nat} (hpos : 0 < length) :
    Tasks (inFlight ++ [⟨blockIndex, length, false⟩]) settled (blockIndex + 1) failure := by
  refine ⟨?_, fun task ht => ?_, fun result hr => Nat.lt_succ_of_lt (h.past result hr), fun task ht result hr => ?_,
    fun task ht => ?_, h.thrown⟩
  · rw [map_append, nodup_append]
    refine ⟨h.nodup, nodup_singleton _, fun b hb c hc hbc => ?_⟩
    obtain ⟨task, ht, rfl⟩ := mem_map.1 hb
    have hlt := h.known task ht
    rw [mem_singleton.1 hc] at hbc
    exact absurd hbc (Nat.ne_of_lt hlt)
  · rcases mem_append.1 ht with ht | ht
    · exact Nat.lt_succ_of_lt (h.known task ht)
    · rw [mem_singleton.1 ht]
      exact Nat.lt_succ_self _
  · rcases mem_append.1 ht with ht | ht
    · exact h.fresh task ht result hr
    · rw [mem_singleton.1 ht]
      exact Nat.ne_of_lt (h.past result hr)
  · rcases mem_append.1 ht with ht | ht
    · exact h.positive task ht
    · rw [mem_singleton.1 ht]
      exact hpos

theorem Tasks.skip (h : Tasks inFlight settled blockIndex failure) : Tasks inFlight settled (blockIndex + 1) failure :=
  ⟨h.nodup, fun task ht => Nat.lt_succ_of_lt (h.known task ht), fun result hr => Nat.lt_succ_of_lt (h.past result hr),
    h.fresh, h.positive, h.thrown⟩

variable {block : Nat}

theorem Tasks.settle (h : Tasks inFlight settled blockIndex failure) (hb : block < blockIndex)
    (error : Option String) : Tasks (inFlight.filter (fun task => task.block ≠ block)) (settled ++ [(block, error)])
      blockIndex (failure.or error) := by
  refine ⟨?_, fun task ht => h.known task (mem_filter.1 ht).1, fun result hr => ?_, fun task ht result hr => ?_,
    fun task ht => h.positive task (mem_filter.1 ht).1, fun result hr hne => ?_⟩
  · exact h.nodup.sublist (filter_sublist.map _)
  · rcases mem_append.1 hr with hr | hr
    · exact h.past result hr
    · rw [mem_singleton.1 hr]
      exact hb
  · obtain ⟨ht, hne⟩ := mem_filter.1 ht
    rcases mem_append.1 hr with hr | hr
    · exact h.fresh task ht result hr
    · rw [mem_singleton.1 hr]
      exact fun heq => of_decide_eq_true hne heq.symm
  · rcases mem_append.1 hr with hr | hr
    · have hf := h.thrown result hr hne
      cases failure with
      | none => exact absurd rfl hf
      | some e => exact Option.some_ne_none e
    · rw [mem_singleton.1 hr] at hne
      cases failure with
      | none => exact hne
      | some e => exact Option.some_ne_none e

theorem setReporting_blocks (inFlight : List HighwayTask) (block : Nat) :
    (setReporting inFlight block).map (fun task => task.block) = inFlight.map (fun task => task.block) := by
  unfold setReporting
  rw [map_map]
  refine map_congr_left (fun task _ => ?_)
  simp only [Function.comp_apply]
  split <;> rfl

theorem mem_setReporting {task : HighwayTask} (ht : task ∈ setReporting inFlight block) :
    ∃ t ∈ inFlight, task.block = t.block ∧ task.length = t.length := by
  obtain ⟨t, hin, rfl⟩ := mem_map.1 ht
  refine ⟨t, hin, ?_⟩
  split <;> exact ⟨rfl, rfl⟩

theorem Tasks.report (h : Tasks inFlight settled blockIndex failure) (block : Nat) :
    Tasks (setReporting inFlight block) settled blockIndex failure := by
  refine ⟨?_, fun task ht => ?_, h.past, fun task ht result hr => ?_, fun task ht => ?_, h.thrown⟩
  · rw [setReporting_blocks]
    exact h.nodup
  · obtain ⟨t, ht, hb, -⟩ := mem_setReporting ht
    rw [hb]
    exact h.known t ht
  · obtain ⟨t, ht, hb, -⟩ := mem_setReporting ht
    rw [hb]
    exact h.fresh t ht result hr
  · obtain ⟨t, ht, -, hl⟩ := mem_setReporting ht
    rw [hl]
    exact h.positive t ht

theorem Tasks.unique (h : Tasks inFlight settled blockIndex failure) {task t : HighwayTask} (ht : task ∈ inFlight)
    (ht' : t ∈ inFlight) (hb : task.block = t.block) : task = t :=
  inj_on_of_nodup_map h.nodup ht ht' hb

/-! ### Bytes under way -/

theorem posting_append (inFlight : List HighwayTask) (task : HighwayTask) (ht : task.reporting = false) :
    posting (inFlight ++ [task]) = posting inFlight + task.length := by
  unfold posting
  simp [ht]

theorem posting_cons (task : HighwayTask) (inFlight : List HighwayTask) :
    posting (task :: inFlight) = (if task.reporting then 0 else task.length) + posting inFlight := by
  unfold posting
  cases hr : task.reporting <;> simp [hr]

theorem posting_setReporting : ∀ {inFlight : List HighwayTask} {task : HighwayTask}, task ∈ inFlight →
    task.reporting = false → (inFlight.map (fun task => task.block)).Nodup →
    posting (setReporting inFlight task.block) + task.length = posting inFlight
  | t :: rest, task, ht, hr, hnodup => by
    rw [map_cons, nodup_cons] at hnodup
    have hcons : setReporting (t :: rest) task.block =
        (if t.block = task.block then { t with reporting := true } else t) :: setReporting rest task.block := rfl
    rw [hcons, posting_cons, posting_cons]
    by_cases hb : t.block = task.block
    · have hrest : setReporting rest task.block = rest := by
        unfold setReporting
        refine (map_congr_left (fun t' ht' => ?_)).trans (map_id rest)
        rw [if_neg (fun heq => hnodup.1 ?_), id]
        rw [hb, ← heq]
        exact mem_map_of_mem ht'
      have htask : task = t := by
        rcases mem_cons.1 ht with ht | ht
        · exact ht
        · exact absurd (hb ▸ mem_map_of_mem ht) hnodup.1
      rw [if_pos hb, hrest, htask]
      rw [htask] at hr
      rw [hr]
      simp only [if_true, Bool.false_eq_true, if_false]
      omega
    · have ht : task ∈ rest := by
        rcases mem_cons.1 ht with ht | ht
        · exact absurd (congrArg HighwayTask.block ht).symm hb
        · exact ht
      rw [if_neg hb]
      have ih := posting_setReporting ht hr hnodup.2
      omega

theorem posting_filter (h : ∀ task ∈ inFlight, task.block = block → task.reporting = true) :
    posting (inFlight.filter (fun task => task.block ≠ block)) = posting inFlight := by
  unfold posting
  rw [filter_filter]
  refine congrArg (fun l : List HighwayTask => (l.map (fun task => task.length)).sum) (filter_congr (fun task ht => ?_))
  by_cases hb : task.block = block
  · simp [hb, h task ht hb]
  · simp [hb]

/-! ### Blocks -/

variable {frame : HighwayFrame}

theorem Tiled.push {encoded : List HighwayFrame} (h : Tiled codecs plan encoded) {block : List UInt8}
    (hpos : 0 < block.length)
    (hframe : encodeHighwayFrame codecs plan (plan.sequenceStart + encoded.length) (encodedBytes encoded).length block =
      .ok frame) : Tiled codecs plan (encoded ++ [frame]) := by
  intro k frame' hk
  by_cases hlt : k < encoded.length
  · rw [getElem?_append_left hlt] at hk
    rw [take_append_of_le_length (Nat.le_of_lt hlt)]
    exact h k frame' hk
  · have hlen : k = encoded.length := by
      have hk' := (List.getElem?_eq_some_iff.1 hk).1
      rw [List.length_append, List.length_singleton] at hk'
      omega
    subst hlen
    rw [getElem?_append_right (Nat.le_refl _), Nat.sub_self] at hk
    obtain rfl : frame = frame' := Option.some.inj hk
    obtain ⟨hbody, hsequence, hoffset, hlength, hmd5, hbytes⟩ := encodeHighwayFrame_spec hframe
    rw [take_left, hbody]
    exact ⟨hsequence, hoffset, hlength, hmd5, hpos, hbytes⟩

theorem encodedBytes_push (encoded : List HighwayFrame) (frame : HighwayFrame) :
    encodedBytes (encoded ++ [frame]) = encodedBytes encoded ++ frame.body := by
  unfold encodedBytes
  rw [flatMap_append, flatMap_singleton]

/-! ### The call goes on -/

/-- A call that is not rejected may go on with `rest` to copy. -/
structure Ready (codecs : HighwayCodecs) (plan : QQHighwayUploadPlan) (s : HighwayUpload) (rest : List UInt8) : Prop where
  size : 0 < s.writer.bufferSize
  fits : s.writer.buffered.length ≤ s.writer.bufferSize
  tiled : Tiled codecs plan s.encoded
  counts : s.writer.blockIndex = s.encoded.length ∧ s.writer.scheduled = (encodedBytes s.encoded).length ∧
    s.writer.received = s.written.length
  bytes : encodedBytes s.encoded ++ s.writer.buffered ++ rest = s.written
  undone : s.rejected = none ∧ s.completed = false
  tasks : Tasks s.writer.inFlight s.settled s.writer.blockIndex s.writer.failure
  room : s.writer.inFlight.length < highwayMaxInFlightBlocks
  accounted : s.writer.failure = none → s.writer.uploaded + posting s.writer.inFlight = s.writer.scheduled ∧
    ∀ k < s.encoded.length, (∃ ack, (k, ack) ∈ s.acknowledged) ∨
      ∃ task ∈ s.writer.inFlight, task.block = k ∧ task.reporting = false
  reported : Reported s.progress s.writer.uploaded
  acks : ∀ k ack, (k, ack) ∈ s.acknowledged → ack.server ∈ plan.servers ∧ Acknowledges codecs ack

variable {rest : List UInt8}

theorem Inv.ready (h : Inv codecs plan s) (hundone : s.rejected = none ∧ s.completed = false)
    (hbytes : encodedBytes s.encoded ++ s.writer.buffered ++ rest = s.written)
    (hroom : s.writer.inFlight.length < highwayMaxInFlightBlocks) (hfirst : firstPosting s.call = 0)
    (hposts : ∀ k, ¬ firstPosts s.call k) : Ready codecs plan s rest where
  size := h.size
  fits := h.fits
  tiled := h.tiled
  counts := h.counts hundone.1
  bytes := hbytes
  undone := hundone
  tasks := h.tasks
  room := hroom
  accounted := fun hfailure => by
    obtain ⟨hsum, hall⟩ := h.accounted hundone.1 hfailure
    rw [hfirst] at hsum
    refine ⟨hsum, fun k hk => ?_⟩
    rcases hall k hk with hack | htask | hpost
    · exact .inl hack
    · exact .inr htask
    · exact absurd hpost (hposts k)
  reported := h.reported
  acks := h.acks

structure Remains (codecs : HighwayCodecs) (plan : QQHighwayUploadPlan) (s : HighwayUpload) : Prop where
  size : 0 < s.writer.bufferSize
  fits : s.writer.buffered.length ≤ s.writer.bufferSize
  tiled : Tiled codecs plan s.encoded
  copied : encodedBytes s.encoded <+: s.written
  tasks : Tasks s.writer.inFlight s.settled s.writer.blockIndex s.writer.failure
  room : s.writer.inFlight.length < highwayMaxInFlightBlocks
  reported : Reported s.progress s.writer.uploaded
  acks : ∀ k ack, (k, ack) ∈ s.acknowledged → ack.server ∈ plan.servers ∧ Acknowledges codecs ack
  complete : s.completed = true → s.Complete plan

theorem Remains.reject (h : Remains codecs plan s) (next : HighwayNext) (error : String) :
    Inv codecs plan (s.reject next error) := by
  have hcopied := h.copied
  have hcomplete := h.complete
  cases next with
  | write rest =>
    refine ⟨h.size, h.fits, h.tiled, fun hr => ?_, fun hb => ?_, hcopied, fun hc => absurd rfl hc, fun hf => ?_, h.tasks,
      h.room, trivial, fun hr => ?_, h.reported, h.acks, fun hc => ?_⟩
    · cases hr
    · rcases hb with hb | hb
      · exact absurd rfl hb
      · cases hb.1
    · cases hf
    · cases hr
    · obtain ⟨hclosed, -, hdrained, hbytes, hsize, hacks, huploaded⟩ := hcomplete hc
      exact ⟨hclosed, rfl, hdrained, hbytes, hsize, hacks, huploaded⟩
  | complete =>
    refine ⟨h.size, Nat.zero_le _, h.tiled, fun hr => ?_, fun hb => ?_, hcopied, fun hc => absurd rfl hc, fun hf => ?_,
      h.tasks, h.room, trivial, fun hr => ?_, h.reported, h.acks, fun hc => ?_⟩
    · cases hr
    · rcases hb with hb | hb
      · exact absurd rfl hb
      · cases hb.1
    · cases hf
    · cases hr
    · obtain ⟨-, -, hdrained, hbytes, hsize, hacks, huploaded⟩ := hcomplete hc
      exact ⟨rfl, rfl, hdrained, hbytes, hsize, hacks, huploaded⟩

theorem Inv.remains (h : Inv codecs plan s) (hroom : s.writer.inFlight.length < highwayMaxInFlightBlocks) :
    Remains codecs plan s :=
  ⟨h.size, h.fits, h.tiled, h.copied, h.tasks, hroom, h.reported, h.acks, h.complete⟩

theorem Ready.copied (h : Ready codecs plan s rest) : encodedBytes s.encoded <+: s.written := by
  have hbytes := h.bytes
  rw [append_assoc] at hbytes
  exact ⟨s.writer.buffered ++ rest, hbytes⟩

theorem Ready.remains (h : Ready codecs plan s rest) : Remains codecs plan s :=
  ⟨h.size, h.fits, h.tiled, h.copied, h.tasks, h.room, h.reported, h.acks,
    fun hc => absurd (h.undone.2.symm.trans hc) Bool.false_ne_true⟩

theorem Ready.account (h : Ready codecs plan s rest) {call : Option HighwayCall}
    (hfirst : firstPosting call = 0) : Accounted { s with call := call } := by
  intro _ hfailure
  obtain ⟨hsum, hall⟩ := h.accounted hfailure
  refine ⟨?_, fun k hk => ?_⟩
  · show _ + _ + firstPosting call = _
    rw [hfirst]
    exact hsum
  · rcases hall k hk with hack | htask
    · exact .inl hack
    · exact .inr (.inl htask)

theorem Ready.ends (h : Ready codecs plan s []) : Inv codecs plan { s with call := none } := by
  refine ⟨h.size, h.fits, h.tiled, fun _ => h.counts, fun _ => h.bytes, h.copied, fun hc => absurd rfl hc,
    fun hf => ?_, h.tasks, h.room, trivial, h.account rfl, h.reported, h.acks,
    fun hc => absurd (h.undone.2.symm.trans hc) Bool.false_ne_true⟩
  cases hf

theorem Ready.completing (h : Ready codecs plan s []) (hbuffered : s.writer.buffered = [])
    (hreceived : s.writer.received = plan.fileSize) : Inv codecs plan { s with call := some .completing } :=
  ⟨h.size, h.fits, h.tiled, fun _ => h.counts, fun _ => h.bytes, h.copied,
    fun _ => ⟨h.undone.1, h.undone.2, hbuffered⟩, fun _ => hreceived, h.tasks, h.room, trivial, h.account rfl, h.reported,
    h.acks,
    fun hc => absurd (h.undone.2.symm.trans hc) Bool.false_ne_true⟩

/-- **A block is encoded**: it begins where the one before it ended. -/
theorem Ready.encode (h : Ready codecs plan s rest) (hpos : 0 < s.writer.buffered.length)
    (hframe : encodeHighwayFrame codecs plan (plan.sequenceStart + s.writer.blockIndex)
      s.writer.scheduled s.writer.buffered = .ok frame) :
    Tiled codecs plan (s.encoded ++ [frame]) ∧
    (s.writer.blockIndex + 1 = (s.encoded ++ [frame]).length ∧
      s.writer.scheduled + s.writer.buffered.length = (encodedBytes (s.encoded ++ [frame])).length ∧
      s.writer.received = s.written.length) ∧
    encodedBytes (s.encoded ++ [frame]) ++ [] ++ rest = s.written ∧ encodedBytes (s.encoded ++ [frame]) <+: s.written := by
  obtain ⟨hindex, hscheduled, hreceived⟩ := h.counts
  have hbody : frame.body = s.writer.buffered := (encodeHighwayFrame_spec hframe).1
  have hencoded : encodedBytes (s.encoded ++ [frame]) = encodedBytes s.encoded ++ s.writer.buffered := by
    rw [encodedBytes_push, hbody]
  have hbytes : encodedBytes (s.encoded ++ [frame]) ++ [] ++ rest = s.written := by
    rw [hencoded, append_nil]
    exact h.bytes
  refine ⟨h.tiled.push hpos ?_, ⟨?_, ?_, hreceived⟩, hbytes, ?_⟩
  · rw [← hindex, ← hscheduled]
    exact hframe
  · rw [List.length_append, List.length_singleton, hindex]
  · rw [hencoded, List.length_append, hscheduled]
  · rw [append_nil] at hbytes
    exact ⟨rest, hbytes⟩

theorem Ready.flushFirst {next : HighwayNext} (hblock : 0 < plan.blockSize) (h : Ready codecs plan s next.rest)
    (hpos : 0 < s.writer.buffered.length) (hfinish : next = .complete → s.writer.received = plan.fileSize)
    (hframe : encodeHighwayFrame codecs plan (plan.sequenceStart + s.writer.blockIndex)
      s.writer.scheduled s.writer.buffered = .ok frame) (hzero : s.writer.blockIndex = 0) :
    Inv codecs plan { s with
      encoded := s.encoded ++ [frame]
      writer := { s.writer with
        blockIndex := s.writer.blockIndex + 1
        scheduled := s.writer.scheduled + s.writer.buffered.length
        bufferSize := plan.blockSize
        buffered := [] }
      call := some (.first ⟨s.writer.blockIndex, s.writer.buffered.length, false⟩ next) } := by
  obtain ⟨htiled, hcounts, hbytes, hcopied⟩ := h.encode hpos hframe
  have hnone : s.writer.inFlight = [] := by
    cases hf : s.writer.inFlight with
    | nil => rfl
    | cons task rest =>
      have hlt := h.tasks.known task (by rw [hf]; exact mem_cons_self)
      rw [hzero] at hlt
      exact absurd hlt (Nat.not_lt_zero _)
  refine ⟨hblock, Nat.zero_le _, htiled, fun _ => hcounts, fun _ => hbytes, hcopied,
    fun _ => ⟨h.undone.1, h.undone.2, rfl⟩, fun hf => ?_, h.tasks.skip, ⟨hnone, hzero, hpos⟩, trivial,
    fun _ hfailure => ?_, h.reported, h.acks, fun hc => absurd (h.undone.2.symm.trans hc) Bool.false_ne_true⟩
  · cases next with
    | write rest => cases hf
    | complete => exact hfinish rfl
  · obtain ⟨hsum, hall⟩ := h.accounted hfailure
    refine ⟨?_, fun k hk => .inr (.inr ⟨_, next, rfl, ?_, rfl⟩)⟩
    · show s.writer.uploaded + posting s.writer.inFlight + s.writer.buffered.length =
        s.writer.scheduled + s.writer.buffered.length
      rw [hsum]
    · have hk : k < (s.encoded ++ [frame]).length := hk
      rw [← hcounts.1, hzero] at hk
      show s.writer.blockIndex = k
      omega

theorem Ready.flushTask {next : HighwayNext} (hblock : 0 < plan.blockSize) (h : Ready codecs plan s next.rest)
    (hpos : 0 < s.writer.buffered.length) (hfinish : next = .complete → s.writer.received = plan.fileSize)
    (hframe : encodeHighwayFrame codecs plan (plan.sequenceStart + s.writer.blockIndex)
      s.writer.scheduled s.writer.buffered = .ok frame) {inFlight : List HighwayTask}
    (hin : inFlight = s.writer.inFlight ++ [⟨s.writer.blockIndex, s.writer.buffered.length, false⟩]) :
    Inv codecs plan { s with
      encoded := s.encoded ++ [frame]
      writer := { s.writer with
        blockIndex := s.writer.blockIndex + 1
        scheduled := s.writer.scheduled + s.writer.buffered.length
        bufferSize := plan.blockSize
        buffered := []
        inFlight := inFlight }
      call := some (if highwayMaxInFlightBlocks ≤ inFlight.length then
        .racing (inFlight.map (fun task => task.block)) next else .flushed next) } := by
  obtain ⟨htiled, hcounts, hbytes, hcopied⟩ := h.encode hpos hframe
  have htasks : Tasks inFlight s.settled (s.writer.blockIndex + 1) s.writer.failure := hin ▸ h.tasks.push hpos
  have hroom : inFlight.length ≤ highwayMaxInFlightBlocks := by
    rw [hin, List.length_append, List.length_singleton]
    exact h.room
  have hacc : ∀ call : Option HighwayCall, firstPosting call = 0 → s.rejected = none → s.writer.failure = none →
      s.writer.uploaded + posting inFlight + firstPosting call = s.writer.scheduled + s.writer.buffered.length ∧
      ∀ k < (s.encoded ++ [frame]).length, (∃ ack, (k, ack) ∈ s.acknowledged) ∨
        (∃ task ∈ inFlight, task.block = k ∧ task.reporting = false) ∨ firstPosts call k := by
    intro call hfirst _ hfailure
    obtain ⟨hsum, hall⟩ := h.accounted hfailure
    refine ⟨?_, fun k hk => ?_⟩
    · rw [hin, posting_append _ _ rfl, hfirst]
      show s.writer.uploaded + (posting s.writer.inFlight + s.writer.buffered.length) + 0 =
        s.writer.scheduled + s.writer.buffered.length
      omega
    · rw [← hcounts.1] at hk
      rw [hin]
      rcases Nat.lt_succ_iff_lt_or_eq.1 hk with hlt | heq
      · rcases hall k (h.counts.1 ▸ hlt) with hack | ⟨task, ht, hb⟩
        · exact .inl hack
        · exact .inr (.inl ⟨task, mem_append_left _ ht, hb⟩)
      · exact .inr (.inl ⟨_, mem_append_right _ mem_cons_self, heq.symm, rfl⟩)
  have hdone : s.completed = true → False := fun hc => absurd (h.undone.2.symm.trans hc) Bool.false_ne_true
  have hfin : finishing (some (.flushed next)) = true → s.writer.received = plan.fileSize := by
    cases next with
    | write rest => exact fun hf => by cases hf
    | complete => exact fun _ => hfinish rfl
  by_cases hfull : highwayMaxInFlightBlocks ≤ inFlight.length
  · rw [if_pos hfull]
    refine ⟨hblock, Nat.zero_le _, htiled, fun _ => hcounts, fun _ => hbytes, hcopied,
      fun _ => ⟨h.undone.1, h.undone.2, rfl⟩, fun hf => hfin (by cases next <;> exact hf), htasks,
      ⟨List.Sublist.refl _, (length_map _).trans_le hroom⟩, ⟨?_, fun block hb => .inl hb⟩, hacc _ rfl, h.reported,
      h.acks, fun hc => (hdone hc).elim⟩
    rw [hin, map_append]
    exact append_ne_nil_of_right_ne_nil _ (cons_ne_nil _ _)
  · rw [if_neg hfull]
    exact ⟨hblock, Nat.zero_le _, htiled, fun _ => hcounts, fun _ => hbytes, hcopied,
      fun _ => ⟨h.undone.1, h.undone.2, rfl⟩, hfin, htasks, Nat.lt_of_not_le hfull, trivial, hacc _ rfl, h.reported,
      h.acks, fun hc => (hdone hc).elim⟩

/-- **A flush**: the buffer becomes the next block. -/
theorem Ready.flush (next : HighwayNext) (hblock : 0 < plan.blockSize) (h : Ready codecs plan s next.rest)
    (hpos : 0 < s.writer.buffered.length) (hfinish : next = .complete → s.writer.received = plan.fileSize) :
    Inv codecs plan (s.flush codecs plan s.writer.buffered next) := by
  unfold HighwayUpload.flush
  simp only
  cases hframe : encodeHighwayFrame codecs plan (plan.sequenceStart + s.writer.blockIndex) s.writer.scheduled
      s.writer.buffered with
  | error error =>
    have hremains : Remains codecs plan { s with
        writer := { s.writer with
          blockIndex := s.writer.blockIndex + 1
          scheduled := s.writer.scheduled + s.writer.buffered.length } } :=
      ⟨h.size, h.fits, h.tiled, h.copied, h.tasks.skip, h.room, h.reported, h.acks, fun hc =>
        absurd (h.undone.2.symm.trans hc) Bool.false_ne_true⟩
    exact hremains.reject next error
  | ok frame =>
    simp only
    by_cases hzero : s.writer.blockIndex = 0
    · rw [if_pos hzero]
      exact h.flushFirst hblock hpos hfinish hframe hzero
    · rw [if_neg hzero]
      exact h.flushTask hblock hpos hfinish hframe rfl

/-- **The copying of a chunk** up to the next await. -/
theorem Ready.copy (hblock : 0 < plan.blockSize) (h : Ready codecs plan s rest) :
    Inv codecs plan (s.copy codecs plan rest) := by
  unfold HighwayUpload.copy
  simp only
  by_cases hempty : rest.isEmpty = true
  · rw [if_pos hempty]
    obtain rfl : rest = [] := isEmpty_iff.1 hempty
    rw [take_nil, append_nil]
    exact h.ends
  · rw [if_neg hempty]
    generalize hn : min (s.writer.bufferSize - s.writer.buffered.length) rest.length = n
    have hfits := h.fits
    have hlength : (s.writer.buffered ++ rest.take n).length = s.writer.buffered.length + n := by
      rw [List.length_append, length_take]
      omega
    have hready : Ready codecs plan { s with
        writer := { s.writer with buffered := s.writer.buffered ++ rest.take n } } (rest.drop n) := by
      refine ⟨h.size, ?_, h.tiled, h.counts, ?_, h.undone, h.tasks, h.room, h.accounted, h.reported, h.acks⟩
      · show (s.writer.buffered ++ rest.take n).length ≤ s.writer.bufferSize
        omega
      · show encodedBytes s.encoded ++ (s.writer.buffered ++ rest.take n) ++ rest.drop n = s.written
        rw [← h.bytes, append_assoc, append_assoc, append_assoc, take_append_drop]
    by_cases hfull : (s.writer.buffered ++ rest.take n).length = s.writer.bufferSize
    · rw [if_pos hfull]
      exact Ready.flush (.write (rest.drop n)) hblock hready (hfull ▸ h.size) (fun hc => by cases hc)
    · rw [if_neg hfull]
      -- the buffer took all of the chunk
      have hnil : rest.drop n = [] := drop_eq_nil_of_le (by omega)
      rw [hnil] at hready
      exact hready.ends

theorem Ready.goOn (next : HighwayNext) (hblock : 0 < plan.blockSize) (h : Ready codecs plan s next.rest)
    (hfinish : next = .complete → s.writer.buffered = [] ∧ s.writer.received = plan.fileSize) :
    Inv codecs plan (s.goOn codecs plan next) := by
  cases next with
  | write rest => exact h.copy hblock
  | complete => exact h.completing (hfinish rfl).1 (hfinish rfl).2

end HighwayUpload
end Crossgram
