import Std.Data.String.ToInt
import Crossgram.Lib.Hex
import Crossgram.Lib.Maps
import Crossgram.Lib.Runs
/-!
# RpcRegistry — the replay registry (packages/mtproto/src/session/server-session.ts)

`RpcDependencyRegistry` joins repeats of a request to the one under way and keeps its reply for a while.  A started
request leaves two callbacks: the first marks its entry completed or deletes it, the second (`finally`) takes it off the
counters one microtask later, and other calls can run in between.  Both do nothing once `clear` has begun a new generation.
-/
namespace Crossgram

def maxSharedCompletedMessageIds : Nat := 16384
def maxRpcReplayEntries : Nat := 4096
def maxRpcReplayBytes : Int := 33554432
def rpcReplayTtlMs : Int := 120000
def maxSharedRpcInflight : Int := 512
def maxSharedRpcInflightPerAuthKey : Int := 64

/-! ## Keys -/

/-- `_authScope`. -/
def authScopeOf (authKeyId : List UInt8) : String := Hex.ofBytes authKeyId

/-- `_key`. -/
def messageKey (authKeyId : List UInt8) (msgId : Int) : String := authScopeOf authKeyId ++ ":" ++ msgId.repr

def replayKey (authKeyId : List UInt8) (msgId : Int) (requestFingerprint : String) : String :=
  messageKey authKeyId msgId ++ ":" ++ requestFingerprint

structure RpcReplayEntry where
  promise : Nat
  completedAt : Option Int
  bytes : Int

/-- What the callbacks of a started request close over. -/
structure RpcExecution where
  promise : Nat
  authKeyId : List UInt8
  msgId : Int
  requestFingerprint : String
  generation : Nat
  /-- The first callback has run, `finally` has not. -/
  settled : Bool
deriving DecidableEq

namespace RpcExecution

def key (x : RpcExecution) : String := replayKey x.authKeyId x.msgId x.requestFingerprint

def authScope (x : RpcExecution) : String := authScopeOf x.authKeyId

def settle (promise : Nat) (x : RpcExecution) : RpcExecution :=
  if x.promise = promise then { x with settled := true } else x

variable (promise : Nat) (x : RpcExecution)

@[simp] theorem settle_promise : (x.settle promise).promise = x.promise := by
  unfold settle
  split <;> rfl

@[simp] theorem settle_generation : (x.settle promise).generation = x.generation := by
  unfold settle
  split <;> rfl

@[simp] theorem settle_key : (x.settle promise).key = x.key := by
  unfold settle
  split <;> rfl

@[simp] theorem settle_authScope : (x.settle promise).authScope = x.authScope := by
  unfold settle
  split <;> rfl

theorem settle_of_ne {promise : Nat} {x : RpcExecution} (h : x.promise ≠ promise) : x.settle promise = x := if_neg h

theorem settled_settle {promise : Nat} {x : RpcExecution} (h : (x.settle promise).settled = false) :
    x.promise ≠ promise ∧ x.settled = false := by
  unfold settle at h
  split at h
  · cases h
  · rename_i hp
    exact ⟨hp, h⟩

end RpcExecution

structure RpcDependencyRegistry where
  processing : List (String × Nat)
  completed : List (String × Unit)
  replays : List (String × RpcReplayEntry)
  inFlightByAuth : List (String × Int)
  startedAtSeconds : Int
  /-- `none` is `Infinity`. -/
  nextReplayExpiry : Option Int
  replayBytes : Int
  inFlight : Int
  generation : Nat

namespace RpcDependencyRegistry

def empty (startedAtSeconds : Int) : RpcDependencyRegistry :=
  { processing := [], completed := [], replays := [], inFlightByAuth := [], startedAtSeconds := startedAtSeconds,
    nextReplayExpiry := none, replayBytes := 0, inFlight := 0, generation := 0 }

variable (r : RpcDependencyRegistry)

/-! ## Dependencies -/

def register (authKeyId : List UInt8) (msgId : Int) (processing : Nat) : RpcDependencyRegistry :=
  { r with processing := Maps.set r.processing (messageKey authKeyId msgId) processing }

def complete (authKeyId : List UInt8) (msgId : Int) (processing : Nat) : RpcDependencyRegistry :=
  let key := messageKey authKeyId msgId
  let completed := Maps.set (Maps.delete r.completed key) key ()
  { r with
    processing := if Maps.get r.processing key = some processing then Maps.delete r.processing key else r.processing
    completed := completed.drop (completed.length - maxSharedCompletedMessageIds) }

/-- `completed`: an id from before the process started counts as completed. -/
def isCompleted (authKeyId : List UInt8) (msgId : Int) : Bool :=
  Maps.has r.completed (messageKey authKeyId msgId) || decide (msgId % 18446744073709551616 / 4294967296 < r.startedAtSeconds)

def clear : RpcDependencyRegistry :=
  { r with
    generation := r.generation + 1
    processing := []
    completed := []
    replays := []
    inFlightByAuth := []
    nextReplayExpiry := none
    replayBytes := 0
    inFlight := 0 }

/-! ## Replays -/

/-- `Math.min` with a deadline that may be `Infinity`. -/
def earlier : Option Int → Int → Option Int
  | none,          deadline => some deadline
  | some previous, deadline => some (min previous deadline)

/-- `_deleteReplay`: the entry goes if it is still the one under the key. -/
def deleteReplay (key : String) (entry : RpcReplayEntry) : RpcDependencyRegistry :=
  if (Maps.get r.replays key).map (fun e => e.promise) = some entry.promise then
    { r with
      replays := Maps.delete r.replays key
      replayBytes := if entry.completedAt.isSome then r.replayBytes - entry.bytes else r.replayBytes }
  else r

def withinLimits : Bool := r.replays.length ≤ maxRpcReplayEntries ∧ r.replayBytes ≤ maxRpcReplayBytes

/-- The loop of `prune`: in-flight entries are passed over. -/
def pruneEntries (now : Int) : List (String × RpcReplayEntry) → RpcDependencyRegistry → RpcDependencyRegistry
  | [],                   r => r
  | (key, entry) :: rest, r =>
    match entry.completedAt with
    | none             => pruneEntries now rest r
    | some completedAt =>
      if now - completedAt ≤ rpcReplayTtlMs ∧ r.withinLimits then
        pruneEntries now rest
          { r with nextReplayExpiry := earlier r.nextReplayExpiry (completedAt + rpcReplayTtlMs + 1) }
      else pruneEntries now rest (r.deleteReplay key entry)

def prune (now : Int) : RpcDependencyRegistry :=
  if (∀ deadline ∈ r.nextReplayExpiry, now < deadline) ∧ r.withinLimits then r
  else pruneEntries now r.replays { r with nextReplayExpiry := none }

/-- `execute`: the promise that answers and, when a callback was started, what its callbacks close over. -/
def execute (promise : Nat) (authKeyId : List UInt8) (msgId : Int) (requestFingerprint : String) (now : Int) :
    RpcDependencyRegistry × Except String (Nat × Option RpcExecution) :=
  let r := r.prune now
  let key := replayKey authKeyId msgId requestFingerprint
  match Maps.get r.replays key with
  | some existing =>
    (if existing.completedAt.isSome then { r with replays := Maps.set (Maps.delete r.replays key) key existing } else r,
      .ok (existing.promise, none))
  | none =>
    let authScope := authScopeOf authKeyId
    let inFlightOfAuth := (Maps.get r.inFlightByAuth authScope).getD 0
    if maxSharedRpcInflight ≤ r.inFlight ∨ maxSharedRpcInflightPerAuthKey ≤ inFlightOfAuth then
      (r, .error "shared RPC replay registry is at capacity")
    else
      ({ r with
          inFlight := r.inFlight + 1
          inFlightByAuth := Maps.set r.inFlightByAuth authScope (inFlightOfAuth + 1)
          replays := Maps.set r.replays key ⟨promise, none, 0⟩ },
        .ok (promise, some ⟨promise, authKeyId, msgId, requestFingerprint, r.generation, false⟩))

def fulfilled (x : RpcExecution) (byteLength : Nat) (now : Int) : RpcDependencyRegistry :=
  if x.generation ≠ r.generation then r
  else prune { r with
    nextReplayExpiry := earlier r.nextReplayExpiry (now + rpcReplayTtlMs + 1)
    replayBytes := r.replayBytes + byteLength
    replays := Maps.set (Maps.delete r.replays x.key) x.key ⟨x.promise, some now, byteLength⟩ } now

def rejected (x : RpcExecution) : RpcDependencyRegistry :=
  if x.generation ≠ r.generation then r else r.deleteReplay x.key ⟨x.promise, none, 0⟩

/-- The `finally` callback. -/
def finished (x : RpcExecution) : RpcDependencyRegistry :=
  if x.generation ≠ r.generation then r
  else
    let remaining := (Maps.get r.inFlightByAuth x.authScope).getD 1 - 1
    { r with
      inFlight := r.inFlight - 1
      inFlightByAuth := if 0 < remaining then Maps.set r.inFlightByAuth x.authScope remaining
        else Maps.delete r.inFlightByAuth x.authScope }

end RpcDependencyRegistry

/-! ## Runs of the registry -/

/-- The registry and the callbacks still to run. -/
structure RpcCalls where
  registry : RpcDependencyRegistry
  running : List RpcExecution
  nextPromise : Nat

inductive RpcEvent
  | register (authKeyId : List UInt8) (msgId : Int) (processing : Nat)
  | complete (authKeyId : List UInt8) (msgId : Int) (processing : Nat)
  | execute (authKeyId : List UInt8) (msgId : Int) (requestFingerprint : String) (now : Int)
  | fulfilled (promise byteLength : Nat) (now : Int)
  | rejected (promise : Nat)
  | finished (promise : Nat)
  | prune (now : Int)
  | clear

namespace RpcCalls

def empty (startedAtSeconds : Int) : RpcCalls := ⟨.empty startedAtSeconds, [], 0⟩

variable (s : RpcCalls)

def due (promise : Nat) (settled : Bool) : Option RpcExecution :=
  s.running.find? (fun x => x.promise = promise ∧ x.settled = settled)

def settle (promise : Nat) : List RpcExecution :=
  s.running.map (fun x => x.settle promise)

def step (s : RpcCalls) : RpcEvent → RpcCalls × Option (Except String Nat)
  | .register authKeyId msgId processing =>
    ({ s with registry := s.registry.register authKeyId msgId processing }, none)
  | .complete authKeyId msgId processing =>
    ({ s with registry := s.registry.complete authKeyId msgId processing }, none)
  | .execute authKeyId msgId requestFingerprint now =>
    match s.registry.execute s.nextPromise authKeyId msgId requestFingerprint now with
    | (registry, .error e)               => ({ s with registry := registry }, some (.error e))
    | (registry, .ok (promise, none))    => ({ s with registry := registry }, some (.ok promise))
    | (registry, .ok (promise, some x))  =>
      (⟨registry, s.running ++ [x], s.nextPromise + 1⟩, some (.ok promise))
  | .fulfilled promise byteLength now =>
    match s.due promise false with
    | some x => ({ s with registry := s.registry.fulfilled x byteLength now, running := s.settle promise }, none)
    | none   => (s, none)
  | .rejected promise =>
    match s.due promise false with
    | some x => ({ s with registry := s.registry.rejected x, running := s.settle promise }, none)
    | none   => (s, none)
  | .finished promise =>
    match s.due promise true with
    | some x => ({ s with registry := s.registry.finished x
                          running := s.running.filter (fun x => x.promise ≠ promise) }, none)
    | none   => (s, none)
  | .prune now => ({ s with registry := s.registry.prune now }, none)
  | .clear => ({ s with registry := s.registry.clear }, none)

end RpcCalls

end Crossgram
