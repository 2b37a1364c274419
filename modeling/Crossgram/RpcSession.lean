import Crossgram.Lib.Maps
import Crossgram.Lib.Runs
/-!
# RpcSession — the calls of one connection (packages/mtproto/src/session/server-session.ts)

Every message a client sends becomes a task.  A call first waits for the authorization transitions received before it,
then takes one of the sixteen slots (or joins the same request already under way), and only then looks up the messages it
is to be invoked after and waits for those still processing.  The steps of different tasks interleave freely.
-/
namespace Crossgram

def maxActiveRpcsPerConnection : Nat := 16
def maxPendingRpcsPerConnection : Nat := 64
def maxCompletedMessageIds : Nat := 4096

def authorizationTransitionMethods : List String :=
  ["auth.bindTempAuthKey", "auth.signIn", "auth.checkPassword", "auth.importAuthorization", "auth.logOut",
    "auth.exportLoginToken", "auth.importLoginToken"]

def bindTempAuthKey : String := "auth.bindTempAuthKey"

/-- A request as `unwrapRpcRequest` reads it. -/
structure RpcRequest where
  method : String
  afterMessageIds : List Int
deriving DecidableEq

/-- A message as it comes off the wire; `other` is one that is answered on the spot. -/
inductive ClientMessage
  | container (msgId : Int) (messages : List ClientMessage)
  | rpc (msgId : Int) (request : RpcRequest)
  | other (msgId : Int)

inductive RpcPhase
  | queued (preceding : Option Nat)
  | joined (task : Nat)
  | slotQueued
  | holding
  | waiting (dependencies : List Nat)
  | running
  | settling
  | completing
  | container (members : List Nat)
  | done
deriving DecidableEq

namespace RpcPhase

def holdsSlot : RpcPhase → Bool
  | holding | waiting _ | running => true
  | _                             => false

/-- Its `execute` has neither been called off nor returned. -/
def executing : RpcPhase → Bool
  | slotQueued | holding | waiting _ | running => true
  | _                                          => false

def returned : RpcPhase → Bool
  | completing | done => true
  | _                 => false

end RpcPhase

structure RpcTask where
  msgId : Int
  request : Option RpcRequest
  phase : RpcPhase

structure ServerSession where
  tasks : List RpcTask
  processingMessages : List (Int × Nat)
  completedMessageIds : List (Int × Unit)
  authorizationTransitionProcessing : Option Nat
  activeRpcCount : Nat
  rpcWaiters : List Nat
  closed : Bool

namespace ServerSession

def empty : ServerSession :=
  { tasks := [], processingMessages := [], completedMessageIds := [], authorizationTransitionProcessing := none,
    activeRpcCount := 0, rpcWaiters := [], closed := false }

variable (s : ServerSession)

def phase (task : Nat) : RpcPhase := ((s.tasks[task]?).map (fun x => x.phase)).getD .done

def requestOf (task : Nat) : Option RpcRequest := (s.tasks[task]?).bind (fun x => x.request)

def msgIdOf (task : Nat) : Option Int := (s.tasks[task]?).map (fun x => x.msgId)

def setPhase (task : Nat) (phase : RpcPhase) : ServerSession :=
  { s with tasks := s.tasks.modify task (fun x => { x with phase := phase }) }

@[simp] theorem length_setPhase (task : Nat) (phase : RpcPhase) :
    (s.setPhase task phase).tasks.length = s.tasks.length := List.length_modify _ _ _

theorem phase_of_length {task : Nat} (h : s.tasks.length ≤ task) : s.phase task = .done := by
  rw [ServerSession.phase, List.getElem?_eq_none h]
  rfl

theorem phase_setPhase (task other : Nat) (phase : RpcPhase) :
    (s.setPhase task phase).phase other = if other = task ∧ task < s.tasks.length then phase else s.phase other := by
  unfold ServerSession.phase setPhase
  rw [List.getElem?_modify]
  by_cases ht : task = other
  · subst ht
    by_cases hlt : task < s.tasks.length
    · simp [hlt]
    · simp [hlt]
  · simp [ht, Ne.symm ht]

/-! ## Arrival -/

/-- The start of `_handleDecryptedMessage`: a later message of the same id takes the entry over. -/
def register (msgId : Int) (request : Option RpcRequest) (phase : RpcPhase) : ServerSession :=
  { s with
    tasks := s.tasks ++ [⟨msgId, request, phase⟩]
    processingMessages := Maps.set s.processingMessages msgId s.tasks.length }

/-- `_enqueueRpcCall`: a transition becomes the one later calls wait for. -/
def enqueueRpcCall (msgId : Int) (request : RpcRequest) : ServerSession :=
  let next := s.register msgId (some request) (.queued s.authorizationTransitionProcessing)
  if request.method ∈ authorizationTransitionMethods then
    { next with authorizationTransitionProcessing := some s.tasks.length }
  else next

mutual

/-- `_processDecryptedMessage` up to its first wait: all messages of a container are registered before any runs. -/
def receive : ClientMessage → ServerSession → ServerSession
  | .container msgId messages, s =>
    let inner := receiveAll messages (s.register msgId none (.container []))
    inner.1.setPhase s.tasks.length (.container inner.2)
  | .rpc msgId request, s => s.enqueueRpcCall msgId request
  | .other msgId, s       => s.register msgId none .completing

def receiveAll : List ClientMessage → ServerSession → ServerSession × List Nat
  | [],                  s => (s, [])
  | message :: messages, s =>
    let rest := receiveAll messages (receive message s)
    (rest.1, s.tasks.length :: rest.2)

end

/-! ## Slots -/

/-- `_acquireRpcSlot`. -/
def acquireRpcSlot (task : Nat) : ServerSession :=
  if s.activeRpcCount < maxActiveRpcsPerConnection then
    { s.setPhase task .holding with activeRpcCount := s.activeRpcCount + 1 }
  else if maxPendingRpcsPerConnection ≤ s.rpcWaiters.length then s.setPhase task .settling
  else { s.setPhase task .slotQueued with rpcWaiters := s.rpcWaiters ++ [task] }

/-- `_rpcSlotRelease`: the slot goes to the call that waited longest. -/
def releaseRpcSlot : ServerSession :=
  match s.rpcWaiters with
  | []           => { s with activeRpcCount := s.activeRpcCount - 1 }
  | next :: rest =>
    if s.closed then { s.setPhase next .completing with rpcWaiters := rest, activeRpcCount := s.activeRpcCount - 1 }
    else { s.setPhase next .holding with rpcWaiters := rest }

/-- `_releasePendingRpcWaiters` when the connection closes. -/
def close : ServerSession :=
  { s.rpcWaiters.foldl (fun s task => s.setPhase task .completing) s with
    rpcWaiters := [], activeRpcCount := 0, closed := true }

/-! ## Dependencies -/

/-- What `_waitForRpcDependencies` finds: the tasks to wait for, `none` when an id is unknown.  The registry shared with
other connections may know an id as completed, or as processing elsewhere. -/
def findDependencies (own : Int) (sharedCompleted sharedProcessing : List Int) : List Int → Option (List Nat)
  | []                 => some []
  | dependency :: rest =>
    match findDependencies own sharedCompleted sharedProcessing rest with
    | none       => none
    | some waits =>
      if dependency = own then none
      else if Maps.has s.completedMessageIds dependency ∨ dependency ∈ sharedCompleted then some waits
      else match Maps.get s.processingMessages dependency with
        | some task => some (task :: waits)
        | none      => if dependency ∈ sharedProcessing then some waits else none

/-- The end of `_handleDecryptedMessage`. -/
def complete (task : Nat) (msgId : Int) : ServerSession :=
  let completed := Maps.set (Maps.delete s.completedMessageIds msgId) msgId ()
  { s.setPhase task .done with
    processingMessages :=
      if Maps.get s.processingMessages msgId = some task then Maps.delete s.processingMessages msgId
      else s.processingMessages
    completedMessageIds := completed.drop (completed.length - maxCompletedMessageIds) }

/-! ## Steps -/

/-- How the replay registry takes a call: it starts, it joins the same request under way, or it is answered at once (from
the cache, or because the registry is full). -/
inductive CallOutcome
  | executes
  | joins (task : Nat)
  | answered

inductive SessionEvent
  | receive (message : ClientMessage)
  | call (task : Nat) (outcome : CallOutcome)
  | lookUp (task : Nat) (sharedCompleted sharedProcessing : List Int)
  | resume (task : Nat)
  /-- The handler returns, or the call is answered before its look-up (the layer is not known yet). -/
  | respond (task : Nat)
  | settle (task : Nat)
  | complete (task : Nat)
  | close

/-- `_handleRpcCall` up to the slot. -/
def handleRpcCall (task : Nat) (request : RpcRequest) : CallOutcome → Option ServerSession
  | .executes => some (s.acquireRpcSlot task)
  | .joins other =>
    if request.method ≠ bindTempAuthKey ∧ s.requestOf other = some request ∧ s.msgIdOf other = s.msgIdOf task ∧
        (s.phase other).executing then some (s.setPhase task (.joined other)) else none
  | .answered => if request.method ≠ bindTempAuthKey then some (s.setPhase task .settling) else none

/-- `_executeRpcCall` up to the handler; `bindTempAuthKey` looks nothing up. -/
def executeRpcCall (task : Nat) (own : Int) (request : RpcRequest) (sharedCompleted sharedProcessing : List Int) :
    ServerSession :=
  if request.method = bindTempAuthKey then s.setPhase task .running
  else match s.findDependencies own sharedCompleted sharedProcessing request.afterMessageIds with
    | none       => (s.setPhase task .settling).releaseRpcSlot
    | some []    => s.setPhase task .running
    | some waits => s.setPhase task (.waiting waits)

def step (s : ServerSession) : SessionEvent → Option ServerSession
  | .receive message => if s.closed then none else some (s.receive message)
  | .call task outcome =>
    match s.phase task, s.requestOf task with
    | .queued preceding, some request =>
      if ∀ other ∈ preceding, (s.phase other).returned then
        if s.closed then some (s.setPhase task .completing) else s.handleRpcCall task request outcome
      else none
    | _, _ => none
  | .lookUp task sharedCompleted sharedProcessing =>
    match s.phase task, s.requestOf task, s.msgIdOf task with
    | .holding, some request, some own => some (s.executeRpcCall task own request sharedCompleted sharedProcessing)
    | _, _, _                          => none
  | .resume task =>
    match s.phase task with
    | .waiting dependencies =>
      if ∀ other ∈ dependencies, s.phase other = .done then some (s.setPhase task .running) else none
    | _ => none
  | .respond task =>
    match s.phase task with
    | .holding => some (s.setPhase task .settling).releaseRpcSlot
    | .running => some (s.setPhase task .settling).releaseRpcSlot
    | _        => none
  | .settle task =>
    match s.phase task with
    | .settling     => some (s.setPhase task .completing)
    | .joined other => if (s.phase other).executing = false then some (s.setPhase task .settling) else none
    | _             => none
  | .complete task =>
    match s.phase task, s.msgIdOf task with
    | .completing, some msgId        => some (s.complete task msgId)
    | .container members, some msgId =>
      if ∀ other ∈ members, s.phase other = .done then some (s.complete task msgId) else none
    | _, _                           => none
  | .close => if s.closed then none else some s.close

/-! ## Waiting -/

def Awaits (task other : Nat) : Prop :=
  match s.phase task with
  | .queued preceding     => preceding = some other ∧ (s.phase other).returned = false
  | .joined task'         => task' = other ∧ (s.phase other).executing
  | .slotQueued           => (s.phase other).holdsSlot
  | .waiting dependencies => other ∈ dependencies ∧ s.phase other ≠ .done
  | .container members    => other ∈ members ∧ s.phase other ≠ .done
  | _                     => False

end ServerSession

end Crossgram
