import Crossgram.HighwayFrames
/-!
# HighwayWriter — the writer of a Highway upload (packages/platform-crossgram/src/highway.ts)

`QQHighwayUploadWriter` over HTTP.  `write` and `complete` are called one after another and are taken apart at their
awaits; the tasks of the blocks go on in between.  `settled` lists the tasks that are over with what they threw, as the
promises of `_inFlight` know it; `written`, `encoded`, `acknowledged` and `progress` are records that no code reads.
-/
namespace Crossgram

structure HighwayTask where
  block : Nat
  length : Nat
  reporting : Bool

/-- What a call does after a flush: `write` copies the rest of its chunk. -/
inductive HighwayNext
  | write (rest : List UInt8)
  | complete

def HighwayNext.rest : HighwayNext → List UInt8
  | .write rest => rest
  | .complete   => []

/-- Where the call under way stands. -/
inductive HighwayCall
  | first (task : HighwayTask) (next : HighwayNext)
  /-- `_flush` has returned. -/
  | flushed (next : HighwayNext)
  /-- `Promise.race` of the tasks of these blocks. -/
  | racing (blocks : List Nat) (next : HighwayNext)
  /-- `complete` has flushed. -/
  | completing
  /-- `Promise.all` of the tasks of these blocks. -/
  | draining (blocks : List Nat)

structure QQHighwayUploadWriter where
  /-- `_buffer.length` -/
  bufferSize : Nat
  /-- The first `_bufferedLength` bytes of `_buffer`. -/
  buffered : List UInt8
  received : Nat
  scheduled : Nat
  uploaded : Nat
  blockIndex : Nat
  closed : Bool
  failure : Option String
  /-- The reason of the signal of `_controller`, once aborted. -/
  aborted : Option String
  inFlight : List HighwayTask

structure HighwayUpload where
  writer : QQHighwayUploadWriter
  /-- The reason of `_options.signal`, once aborted. -/
  signal : Option String
  call : Option HighwayCall
  settled : List (Nat × Option String)
  /-- `complete` has resolved. -/
  completed : Bool
  rejected : Option String
  written : List UInt8
  encoded : List HighwayFrame
  acknowledged : List (Nat × HighwayAck)
  progress : List Nat

/-- `preferred`, `preferredAnswer` and `answers` are what `postHighwayBlock` meets for that block. -/
inductive HighwayEvent
  | write (chunk : List UInt8)
  | complete
  | abort (reason : String)
  | signal (reason : String)
  | posted (block : Nat) (preferred : Option String) (preferredAnswer : PostAnswer) (answers : Nat → PostAnswer)
  /-- `onProgress` is over, with what it threw. -/
  | reported (block : Nat) (error : Option String)
  | resume

namespace HighwayUpload

variable (codecs : HighwayCodecs) (plan : QQHighwayUploadPlan)

def start : HighwayUpload :=
  { writer :=
      { bufferSize := min plan.fileSize (min plan.blockSize highwaySelectionBlockBytes), buffered := [], received := 0
        scheduled := 0, uploaded := 0, blockIndex := 0, closed := false, failure := none, aborted := none, inFlight := [] }
    signal := none, call := none, settled := [], completed := false, rejected := none, written := [], encoded := []
    acknowledged := [], progress := [] }

/-- `abort(reason)` -/
def abort (s : HighwayUpload) (reason : String) : HighwayUpload :=
  { s with writer :=
    { s.writer with
      closed := true
      buffered := []
      aborted := s.writer.aborted.or (some reason) } }

/-- The call under way throws; `complete` aborts first. -/
def reject (s : HighwayUpload) (next : HighwayNext) (error : String) : HighwayUpload :=
  match next with
  | .write _  => { s with call := none, rejected := some error }
  | .complete => { s.abort error with call := none, rejected := some error }

/-- `_flush(block)` up to its first await. -/
def flush (s : HighwayUpload) (block : List UInt8) (next : HighwayNext) : HighwayUpload :=
  let blockIndex := s.writer.blockIndex
  let offset := s.writer.scheduled
  let w := { s.writer with blockIndex := blockIndex + 1, scheduled := offset + block.length }
  match encodeHighwayFrame codecs plan (plan.sequenceStart + blockIndex) offset block with
  | .error error => { s with writer := w }.reject next error
  | .ok frame    =>
    let w := { w with bufferSize := plan.blockSize, buffered := [] }
    let task : HighwayTask := ⟨blockIndex, block.length, false⟩
    let s := { s with encoded := s.encoded ++ [frame] }
    if blockIndex = 0 then { s with writer := w, call := some (.first task next) }
    else
      let inFlight := s.writer.inFlight ++ [task]
      { s with
        writer := { w with inFlight := inFlight }
        call := some (if highwayMaxInFlightBlocks ≤ inFlight.length then
          .racing (inFlight.map (fun task => task.block)) next else .flushed next) }

/-- The loop of `write` up to the next await. -/
def copy (s : HighwayUpload) (rest : List UInt8) : HighwayUpload :=
  let length := min (s.writer.bufferSize - s.writer.buffered.length) rest.length
  let buffered := s.writer.buffered ++ rest.take length
  let s := { s with writer := { s.writer with buffered := buffered } }
  if rest.isEmpty then { s with call := none }
  else if buffered.length = s.writer.bufferSize then s.flush codecs plan buffered (.write (rest.drop length))
  -- what does not fill the buffer is the end of the chunk
  else { s with call := none }

/-- The call goes on after `_flush`. -/
def goOn (s : HighwayUpload) (next : HighwayNext) : HighwayUpload :=
  match next with
  | .write rest => s.copy codecs plan rest
  | .complete   => { s with call := some .completing }

/-- `_throwIfFailed` after `error`, which an awaited promise may have thrown. -/
def orFail (s : HighwayUpload) (error : Option String) (next : HighwayNext) (go : HighwayUpload) : HighwayUpload :=
  match error.or s.writer.failure with
  | some error => s.reject next error
  | none       => go

/-- A task of `_inFlight` is over. -/
def settle (s : HighwayUpload) (block : Nat) (error : Option String) : HighwayUpload :=
  { s with
    writer :=
      { s.writer with
        inFlight := s.writer.inFlight.filter (fun task => task.block ≠ block)
        failure := s.writer.failure.or error
        aborted := s.writer.aborted.or error }
    settled := s.settled ++ [(block, error)] }

/-- `_reportProgress(this._uploaded + length)` up to its await. -/
def report (s : HighwayUpload) (length : Nat) : HighwayUpload :=
  let uploaded := s.writer.uploaded + length
  if uploaded ≤ s.writer.uploaded then s
  else { s with writer := { s.writer with uploaded := uploaded }, progress := s.progress ++ [uploaded] }

def setReporting (inFlight : List HighwayTask) (block : Nat) : List HighwayTask :=
  inFlight.map (fun task => if task.block = block then { task with reporting := true } else task)

/-- The post of a task of `_inFlight` is over. -/
def postedTask (s : HighwayUpload) (task : HighwayTask) (result : Except String HighwayAck) : HighwayUpload :=
  match result with
  | .error error => s.settle task.block (some error)
  | .ok ack      =>
    { s with
      writer := { s.writer with inFlight := setReporting s.writer.inFlight task.block }
      acknowledged := s.acknowledged ++ [(task.block, ack)] }.report task.length

def step (s : HighwayUpload) : HighwayEvent → Option HighwayUpload
  | .write chunk =>
    match s.call with
    | some _ => none
    | none   =>
      if s.writer.closed then some { s with rejected := some "QQ Highway upload is already closed" }
      else match s.writer.failure.or s.signal with
        | some error => some { s with rejected := some error }
        | none =>
          if chunk.isEmpty then some s
          else
            let received := s.writer.received + chunk.length
            let s := { s with writer := { s.writer with received := received } }
            if plan.fileSize < received then
              some { s with rejected := some s!"upload exceeded declared size {plan.fileSize}" }
            else some ({ s with written := s.written ++ chunk }.copy codecs plan chunk)
  | .complete =>
    match s.call with
    | some _ => none
    | none   =>
      if s.writer.closed then some { s with rejected := some "QQ Highway upload is already closed" }
      else match s.writer.failure with
        | some error => some { s with rejected := some error }
        | none =>
          if s.writer.received ≠ plan.fileSize then some { s with
            rejected := some s!"incomplete upload: expected {plan.fileSize} bytes, received {s.writer.received}" }
          else if s.writer.buffered.isEmpty then some (s.goOn codecs plan .complete)
          else some (s.flush codecs plan s.writer.buffered .complete)
  | .abort reason => some (s.abort reason)
  | .signal reason => some { s with signal := s.signal.or (some reason) }
  | .posted block preferred preferredAnswer answers =>
    let result := postHighwayBlock codecs plan (decide (block = 0)) preferred (s.writer.aborted.or s.signal)
      preferredAnswer answers
    match s.call with
    | some (.first task next) =>
      if task.block = block ∧ task.reporting = false then
        match result with
        | .error error => some (s.reject next error)
        | .ok ack => some { s.report task.length with
          call := some (.first { task with reporting := true } next)
          acknowledged := s.acknowledged ++ [(block, ack)] }
      else none
    | _ =>
      (s.writer.inFlight.find? (fun task => decide (task.block = block ∧ task.reporting = false))).map (fun task =>
        s.postedTask task result)
  | .reported block error =>
    match s.call with
    | some (.first task next) =>
      if task.block = block ∧ task.reporting = true then
        match error with
        | some error => some (s.reject next error)
        | none       => some { s with call := some (.flushed next) }
      else none
    | _ =>
      (s.writer.inFlight.find? (fun task => decide (task.block = block ∧ task.reporting = true))).map (fun _ =>
        s.settle block error)
  | .resume =>
    match s.call with
    | some (.flushed next) => some (s.goOn codecs plan next)
    | some (.racing blocks next) =>
      (s.settled.find? (fun result => decide (result.1 ∈ blocks))).map (fun result =>
        s.orFail result.2 next (s.goOn codecs plan next))
    | some .completing => some { s with call := some (.draining (s.writer.inFlight.map (fun task => task.block))) }
    | some (.draining blocks) =>
      let thrown := s.settled.find? (fun result => decide (result.1 ∈ blocks) && result.2.isSome)
      if thrown.isSome ∨ ∀ block ∈ blocks, block ∈ s.settled.map (fun result => result.1) then
        some (s.orFail (thrown.bind (fun result => result.2)) .complete
          { s with writer := { s.writer with closed := true }, call := none, completed := true })
      else none
    | _ => none

/-- A call follows the one before it, and none follows a call that was rejected: the callers abort then. -/
def InTurn (s : HighwayUpload) : HighwayEvent → Prop
  | .write _  => s.rejected = none
  | .complete => s.rejected = none
  | _         => True

end HighwayUpload
end Crossgram
