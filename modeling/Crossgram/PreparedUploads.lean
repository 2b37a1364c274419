import Crossgram.Lib.Maps
import Crossgram.Lib.Runs
/-!
# PreparedUploads — uploads straight into a platform's sink (packages/bridge/src/upload-manager.ts)

The preparations of one file of one session.  The parts of a preparation are handled one behind the other; whatever is
waited for (the sink, a directory) comes back in a step of its own, so anything may happen in between.
-/
namespace Crossgram
namespace PreparedUploads

def FILE_10M_BYTES : Nat := 10 * 1024 * 1024
def MAX_PREPARED_OUT_OF_ORDER_PARTS : Nat := 32
def MAX_PREPARED_OUT_OF_ORDER_BYTES : Nat := 16 * 1024 * 1024

abbrev Hex := List Char

def toLowerCase (hash : Hex) : Hex := hash.map Char.toLower

structure IMMediaUploadHashes where
  size : Nat
  md5 : Hex
  sha1 : Hex
  file10MMd5 : Hex

inductive UploadError (ε : Type)
  | error (message : String)
  | rejected (reason : ε)
deriving DecidableEq

/-- The digests, and which of the values a sink rejects with are true in a test. -/
structure Outside (ε : Type) where
  md5 : List UInt8 → Hex
  sha1 : List UInt8 → Hex
  truthy : ε → Bool

inductive SinkCall (ε : Type)
  | write (chunk : List UInt8)
  | complete
  | abort (reason : UploadError ε)
deriving DecidableEq

/-- What the part in hand waits for. -/
inductive Work (ε : Type)
  | idle
  | writing
  | completing
  | aborting (error : UploadError ε)

structure PreparedUpload (ε : Type) where
  hashes : IMMediaUploadHashes
  parts : List (Nat × List UInt8) := []
  bufferedBytes : Nat := 0
  nextPart : Nat := 0
  receivedBytes : Nat := 0
  /-- What `md5` and `sha1` were given. -/
  digested : List UInt8 := []
  /-- What `file10MMd5` was given. -/
  file10M : List UInt8 := []
  file10MBytes : Nat := 0
  /-- The digests were taken: they take no more bytes. -/
  finalized : Bool := false
  failed : Option (UploadError ε) := none
  /-- What `tail` is rejected with, once it is. -/
  tail : Option (UploadError ε) := none
  queue : List (Nat × List UInt8) := []
  work : Work ε := .idle
  sink : List (SinkCall ε) := []

namespace PreparedUpload

variable {ε : Type}

def truthy (o : Outside ε) : UploadError ε → Bool
  | .error _         => true
  | .rejected reason => o.truthy reason

/-- The `catch` of a part. -/
def fail (o : Outside ε) (u : PreparedUpload ε) (error : UploadError ε) : PreparedUpload ε :=
  if u.failed.any (truthy o) then { u with tail := some error, work := .idle }
  else { u with failed := some error, sink := u.sink ++ [.abort error], work := .aborting error }

/-- `_verifyPreparedHashes`: the first digest that differs. -/
def mismatch (o : Outside ε) (u : PreparedUpload ε) : Option String :=
  if o.md5 u.digested ≠ toLowerCase u.hashes.md5 then some "md5"
  else if o.sha1 u.digested ≠ toLowerCase u.hashes.sha1 then some "sha1"
  else if o.md5 u.file10M ≠ toLowerCase u.hashes.file10MMd5 then some "file10MMd5"
  else none

/-- `_drainPrepared` up to its next write. -/
def drainPrepared (o : Outside ε) (u : PreparedUpload ε) : PreparedUpload ε :=
  match Maps.get u.parts u.nextPart with
  | none       => { u with work := .idle }
  | some chunk =>
    if u.receivedBytes + chunk.length > u.hashes.size then
      u.fail o (.error s!"upload exceeded declared size {u.hashes.size}")
    else
      let u := { u with
        parts := Maps.delete u.parts u.nextPart
        nextPart := u.nextPart + 1
        bufferedBytes := u.bufferedBytes - chunk.length
        receivedBytes := u.receivedBytes + chunk.length }
      if u.finalized then u.fail o (.error "Digest already called")
      else
        let length := if u.file10MBytes < FILE_10M_BYTES then min (FILE_10M_BYTES - u.file10MBytes) chunk.length else 0
        { u with
          digested := u.digested ++ chunk
          file10M := u.file10M ++ chunk.take length
          file10MBytes := u.file10MBytes + length
          sink := u.sink ++ [.write chunk]
          work := .writing }

/-- The part whose turn it is, of `_savePreparedPart`. -/
def handlePart (o : Outside ε) (u : PreparedUpload ε) (part : Nat) (bytes : List UInt8) : PreparedUpload ε :=
  match u.failed.filter (truthy o) with
  | some error => u.fail o error
  | none       =>
    if part < u.nextPart then u
    else
      match Maps.get u.parts part with
      | some duplicate =>
        if duplicate ≠ bytes then u.fail o (.error s!"uploaded file part changed during retry: {part}") else u
      | none           =>
        if part ≠ u.nextPart ∧ (u.parts.length ≥ MAX_PREPARED_OUT_OF_ORDER_PARTS ∨
            u.bufferedBytes + bytes.length > MAX_PREPARED_OUT_OF_ORDER_BYTES) then
          u.fail o (.error "prepared upload out-of-order window exceeded")
        else
          drainPrepared o { u with
            parts := Maps.set u.parts part bytes, bufferedBytes := u.bufferedBytes + bytes.length }

/-- The next part's turn comes; behind a rejection it is not looked at. -/
def start (o : Outside ε) (u : PreparedUpload ε) : Option (PreparedUpload ε) :=
  match u.work, u.queue with
  | .idle, (part, bytes) :: queue =>
    match u.tail with
    | some error => some ({ u with queue }.fail o error)
    | none       => some ({ u with queue }.handlePart o part bytes)
  | _, _                          => none

def written (o : Outside ε) (u : PreparedUpload ε) : Option ε → PreparedUpload ε
  | some reason => u.fail o (.rejected reason)
  | none        =>
    if u.receivedBytes ≠ u.hashes.size then u.drainPrepared o
    else
      match u.mismatch o with
      | some name => { u with finalized := true }.fail o (.error s!"prepared upload {name} mismatch")
      | none      => { u with finalized := true, sink := u.sink ++ [.complete], work := .completing }

/-- The abort of the `catch` has come back. -/
def aborted (u : PreparedUpload ε) (error : UploadError ε) : Option ε → PreparedUpload ε
  | some reason => { u with tail := some (.rejected reason), work := .idle }
  | none        => { u with tail := some error, work := .idle }

def isAborting (u : PreparedUpload ε) : Bool :=
  match u.work with
  | .aborting _ => true
  | _           => false

end PreparedUpload

/-- What `prepare` is given: `sourceSize` of the media's source, and whether there is a sink. -/
structure UploadPreparation where
  hashes : IMMediaUploadHashes
  sourceSize : Option Nat := none
  hasSink : Bool := true

/-- How far a call of `prepare` is. -/
inductive Preparation (ε : Type)
  | replacing (preparation : UploadPreparation)
  | clearing (preparation : UploadPreparation)
  | ready
  | streaming (upload : PreparedUpload ε)
  /-- `prepare` has thrown. -/
  | refused

/-- The manager, as far as one file of one session is concerned.  A preparation's media goes by its number. -/
structure UploadManager (ε : Type) where
  staged : Option Nat := none
  prepared : Option Nat := none
  preparations : List (Nat × Preparation ε) := []
  sweeping : List Nat := []
  /-- The preparations that `prepare`, `remove` or a sweep has aborted or taken out of the map. -/
  evicted : List Nat := []

namespace UploadManager

variable {ε : Type}

def upload (s : UploadManager ε) (id : Nat) : Option (PreparedUpload ε) :=
  match Maps.get s.preparations id with
  | some (.streaming u) => some u
  | _                   => none

def put (s : UploadManager ε) (id : Nat) (p : Preparation ε) : UploadManager ε :=
  { s with preparations := Maps.set s.preparations id p }

/-- A step of a preparation's parts; the failing of one takes the preparation out of the map if it is still there. -/
def settle (s : UploadManager ε) (id : Nat) (u : PreparedUpload ε) : UploadManager ε :=
  { s.put id (.streaming u) with prepared := if u.isAborting ∧ s.prepared = some id then none else s.prepared }

def abortSink (s : UploadManager ε) (id : Nat) (message : String) : UploadManager ε :=
  match s.upload id with
  | some u => s.put id (.streaming { u with sink := u.sink ++ [.abort (.error message)] })
  | none   => s

def evict (s : UploadManager ε) (ids : List Nat) : UploadManager ε := { s with evicted := s.evicted ++ ids }

def savePart (s : UploadManager ε) (part : Nat) (bytes : List UInt8) : UploadManager ε :=
  match s.prepared with
  | none    => s
  | some id =>
    match s.upload id with
    | some u => s.put id (.streaming { u with queue := u.queue ++ [(part, bytes)] })
    | none   => s

/-- The end of the drain: the media is staged, whatever the map holds. -/
def completed (s : UploadManager ε) (id : Nat) (u : PreparedUpload ε) : UploadManager ε :=
  { s.put id (.streaming { u with work := .idle }) with
    prepared := if s.prepared = some id then none else s.prepared, staged := some id }

def remove (s : UploadManager ε) : UploadManager ε :=
  let s := { s with staged := none }
  match s.prepared with
  | none    => s
  | some id => { (s.evict [id]).abortSink id "upload removed" with prepared := none }

/-- `prepare` behind the abort of the sink before. -/
def clear (s : UploadManager ε) (id : Nat) (preparation : UploadPreparation) : UploadManager ε :=
  { (s.evict s.prepared.toList).put id (.clearing preparation) with prepared := none, staged := none }

def prepare (s : UploadManager ε) (id : Nat) (preparation : UploadPreparation) : UploadManager ε :=
  match s.prepared with
  | none          => s.clear id preparation
  | some previous =>
    ((s.evict [previous]).abortSink previous "upload preparation replaced").put id (.replacing preparation)

/-- `prepare` behind the removal of the directory. -/
def prepareCleared (s : UploadManager ε) (id : Nat) (preparation : UploadPreparation) : UploadManager ε :=
  if !preparation.hasSink then { s.put id .ready with staged := some id }
  else if preparation.sourceSize.any (fun size => decide (size ≠ preparation.hashes.size)) then s.put id .refused
  else { (s.evict s.prepared.toList).put id (.streaming { hashes := preparation.hashes }) with prepared := some id }

def sweepEntry (s : UploadManager ε) (id : Nat) : UploadManager ε :=
  { (s.evict (id :: s.prepared.toList)).abortSink id "upload abandoned" with prepared := none }

end UploadManager

inductive UploadAction (ε : Type)
  | savePart (part : Nat) (bytes : List UInt8)
  | start (id : Nat)
  | written (id : Nat) (failure : Option ε)
  | completed (id : Nat) (failure : Option ε)
  | aborted (id : Nat) (failure : Option ε)
  | prepare (id : Nat) (preparation : UploadPreparation)
  | replaced (id : Nat) (failure : Option ε)
  | cleared (id : Nat) (removed : Bool)
  | remove
  | sweep (old : Bool)
  | sweepEntry (id : Nat) (old : Bool)

open UploadManager in
def step {ε : Type} (o : Outside ε) (s : UploadManager ε) : UploadAction ε → Option (UploadManager ε)
  | .savePart part bytes    => some (s.savePart part bytes)
  | .start id               => (s.upload id).bind (fun u => (u.start o).map (s.settle id))
  | .written id failure     =>
    (s.upload id).bind (fun u => if u.work matches .writing then some (s.settle id (u.written o failure)) else none)
  | .completed id failure   =>
    (s.upload id).bind (fun u => if u.work matches .completing then
      match failure with
      | some reason => some (s.settle id (u.fail o (.rejected reason)))
      | none        => some (s.completed id u)
      else none)
  | .aborted id failure     =>
    (s.upload id).bind (fun u => match u.work with
      | .aborting error => some (s.settle id (u.aborted error failure))
      | _               => none)
  | .prepare id preparation => if Maps.has s.preparations id then none else some (s.prepare id preparation)
  | .replaced id failure    =>
    match Maps.get s.preparations id with
    | some (.replacing preparation) =>
      if failure.isSome then some (s.put id .refused) else some (s.clear id preparation)
    | _                             => none
  | .cleared id removed     =>
    match Maps.get s.preparations id with
    | some (.clearing preparation) => if removed then some (s.prepareCleared id preparation) else some (s.put id .refused)
    | _                            => none
  | .remove                 => some s.remove
  | .sweep old              =>
    some { s with staged := if old then none else s.staged, sweeping := s.sweeping ++ s.prepared.toList }
  | .sweepEntry id old      =>
    if id ∈ s.sweeping then
      let s := { s with sweeping := s.sweeping.erase id }
      some (if old then s.sweepEntry id else s)
    else none

def emptyHashes (size : Nat) : IMMediaUploadHashes := { size, md5 := [], sha1 := [], file10MMd5 := [] }

/-- Digests that suit `emptyHashes`; every value is true. -/
def plainOutside : Outside Unit := { md5 := fun _ => [], sha1 := fun _ => [], truthy := fun _ => true }

/-! ## Bytes -/

def bytesOf : List (Nat × List UInt8) → Nat
  | []     => 0
  | e :: l => e.2.length + bytesOf l

theorem bytesOf_append (l l' : List (Nat × List UInt8)) : bytesOf (l ++ l') = bytesOf l + bytesOf l' := by
  induction l with
  | nil          => rw [List.nil_append, bytesOf, Nat.zero_add]
  | cons e l ih => rw [List.cons_append, bytesOf, bytesOf, ih, Nat.add_assoc]

theorem bytesOf_set {m : List (Nat × List UInt8)} {part : Nat} (hnew : Maps.get m part = none) (bytes : List UInt8) :
    bytesOf (Maps.set m part bytes) = bytesOf m + bytes.length := by
  have hhas : ¬ Maps.has m part = true := by
    rw [Maps.has_iff]
    rintro ⟨e, he, hpart⟩
    exact Maps.get_eq_none.1 hnew e he hpart
  rw [Maps.set, if_neg hhas, bytesOf_append]
  rfl

theorem bytesOf_delete_le (m : List (Nat × List UInt8)) (part : Nat) : bytesOf (Maps.delete m part) ≤ bytesOf m := by
  unfold Maps.delete
  induction m with
  | nil          => exact Nat.le_refl _
  | cons e m ih =>
    rw [List.filter_cons]
    split
    · rw [bytesOf, bytesOf]
      omega
    · rw [bytesOf]
      omega

theorem bytesOf_delete {m : List (Nat × List UInt8)} {part : Nat} {bytes : List UInt8}
    (hget : Maps.get m part = some bytes) : bytesOf (Maps.delete m part) + bytes.length ≤ bytesOf m := by
  induction m with
  | nil          => cases hget
  | cons e m ih =>
    rw [Maps.get_cons] at hget
    have hle := bytesOf_delete_le m part
    unfold Maps.delete at ih hle ⊢
    rw [List.filter_cons]
    by_cases hpart : e.1 = part
    · rw [if_pos hpart] at hget
      cases hget
      rw [if_neg (by simpa using hpart), bytesOf]
      omega
    · rw [if_neg hpart] at hget
      have := ih hget
      rw [if_pos (by simpa using hpart), bytesOf, bytesOf]
      omega

/-! ## The uploads of a manager -/

namespace UploadManager

variable {ε : Type}

@[simp] theorem upload_put_streaming (s : UploadManager ε) (id : Nat) (u : PreparedUpload ε) (id' : Nat) :
    (s.put id (.streaming u)).upload id' = if id' = id then some u else s.upload id' := by
  unfold upload put
  dsimp only
  rw [Maps.get_set]
  by_cases hid : id' = id
  · rw [if_pos hid, if_pos hid]
  · rw [if_neg hid, if_neg hid]

theorem get_of_upload {s : UploadManager ε} {id : Nat} {u : PreparedUpload ε} (h : s.upload id = some u) :
    Maps.get s.preparations id = some (.streaming u) := by
  unfold upload at h
  split at h
  · rename_i u' hget
    cases h
    exact hget
  · cases h

end UploadManager

end PreparedUploads
end Crossgram
