import Mathlib.Data.List.Basic
/-!
# SendQueue — the send queue of a connection (packages/mtproto/src/transport/server-connection.ts)

A send waits in the queue, is encoded, is handed to the socket and, when its caller awaits it, is settled.  One send is
encoded at a time; an encoder may answer at once or later, and its two continuations (`write` or `fail`, then `complete`)
run one after the other with other calls between them.  A send is its position among the calls of `_send`.
-/
namespace Crossgram

inductive TransportSendCompletion
  | written
  | closed
  | encodeFailed
  | writeFailed
  | abandoned
  | timeout
deriving DecidableEq

/-- The arguments of `_send`; `awaited` when there is a completion to call. -/
structure SendRequest where
  data : List UInt8
  closeAfterWrite : Bool
  awaited : Bool

/-- The send that is being encoded, with what its buffer will hold; `answered` once `write` or `fail` has run. -/
structure Encoding where
  send : Nat
  frame : List UInt8
  answered : Bool

/-- What others see, in order: frames given to `socket.write`, the frame given to `socket.end`, completions called. -/
inductive TransportEffect
  | write (send : Nat) (frame : List UInt8)
  | finish (send : Nat) (frame : List UInt8)
  | settle (send : Nat) (outcome : TransportSendCompletion)
deriving DecidableEq

/-- What `socket.write` does; its callback comes later. -/
inductive WriteResult
  | queues
  | throws

/-- What `codec.encode` does: it returns, and the frame is written at once; it throws; or it returns a promise. -/
inductive EncodeResult
  | returns (write : WriteResult)
  | throws
  | promises

/-- The fields the queue works on.  A flag of the sends is the list of those that have it; `encoded` is that of `started`,
with the frames.  `callbacks` are the write callbacks still to come, `first` the codec as it was detected. -/
structure ServerConnection (κ : Type) where
  requests : List SendRequest
  abandoned : List Nat
  submitted : List Nat
  pendingSends : List Nat
  completionSends : List Nat
  encoding : Option Encoding
  closed : Bool
  closing : Bool
  pendingCloseFrame : Option (Nat × List UInt8)
  codec : Option κ
  callbacks : List Nat
  first : Option κ
  accepted : List Nat
  encoded : List (Nat × List UInt8)
  effects : List TransportEffect

namespace ServerConnection

variable {κ : Type}

def empty : ServerConnection κ :=
  { requests := [], abandoned := [], submitted := [], pendingSends := [], completionSends := [], encoding := none,
    closed := false, closing := false, pendingCloseFrame := none, codec := none, callbacks := [], first := none,
    accepted := [], encoded := [], effects := [] }

variable (c : ServerConnection κ)

def dataOf (send : Nat) : List UInt8 := (c.requests[send]?).elim [] (fun r => r.data)

def closesAfterWrite (send : Nat) : Bool := (c.requests[send]?).any (fun r => r.closeAfterWrite)

def isAwaited (send : Nat) : Bool := (c.requests[send]?).any (fun r => r.awaited)

/-! ## Settling and closing -/

/-- `_finishPendingClose`.  No completion is left for `_settlePendingSends`, which then empties the queue. -/
def finishPendingClose : ServerConnection κ :=
  match c.pendingCloseFrame with
  | none               => c
  | some (send, frame) =>
    if c.closed || !c.completionSends.isEmpty then c
    else { c with
      pendingCloseFrame := none
      closed := true
      pendingSends := []
      effects := c.effects ++ [.finish send frame] }

def settlePendingSend (send : Nat) (outcome : TransportSendCompletion) : ServerConnection κ :=
  if send ∈ c.completionSends then
    finishPendingClose { c with
      completionSends := c.completionSends.erase send
      effects := c.effects ++ [.settle send outcome] }
  else c

def settlePendingSends (outcome : TransportSendCompletion) : ServerConnection κ :=
  (c.completionSends.filter (fun send => send ∉ c.submitted)).foldl (fun c send => c.settlePendingSend send outcome)
    { c with pendingSends := [] }

def close : ServerConnection κ :=
  if c.closed then c else settlePendingSends { c with closed := true, closing := true } .closed

/-- The socket's `close` event. -/
def onClose : ServerConnection κ := settlePendingSends { c with closed := true, closing := true } .closed

/-! ## Encoding -/

/-- `write`: the frame goes to the socket unless the connection was closed meanwhile. -/
def writeFrame (e : Encoding) (result : WriteResult) : ServerConnection κ :=
  if c.closed then c.settlePendingSend e.send .closed
  else if e.send ∈ c.abandoned then c
  else if c.closesAfterWrite e.send then finishPendingClose { c with pendingCloseFrame := some (e.send, e.frame) }
  else
    let c := { c with submitted := c.submitted ++ [e.send], effects := c.effects ++ [TransportEffect.write e.send e.frame] }
    match result with
    | .queues => { c with callbacks := c.callbacks ++ [e.send] }
    | .throws => (c.settlePendingSend e.send .writeFailed).close

def fail (e : Encoding) : ServerConnection κ := (c.settlePendingSend e.send .encodeFailed).close

variable (encode : κ → List UInt8 → List UInt8 × κ)

def startEncoding (codec : κ) (send : Nat) (queue : List Nat) : ServerConnection κ × Encoding :=
  let (frame, codec) := encode codec (c.dataOf send)
  let e := { send := send, frame := frame, answered := false }
  ({ c with
    pendingSends := queue
    codec := some codec
    encoding := some e
    encoded := c.encoded ++ [(send, frame)] }, e)

/-- `_drainSendQueue`, from the queue `pendingSends`; a codec that answers at once lets the next send follow. -/
def drain : List Nat → List EncodeResult → ServerConnection κ → ServerConnection κ
  | [],            _,       c => c
  | send :: queue, results, c =>
    if c.encoding.isSome || c.closed then c
    else if send ∈ c.abandoned then drain queue results { c with pendingSends := queue }
    else match c.codec with
      | none       => c
      | some codec =>
        let (c, e) := c.startEncoding encode codec send queue
        match results.headD (.returns .queues) with
        | .promises       => c
        | .returns result => drain queue results.tail { c.writeFrame e result with encoding := none }
        | .throws         => drain queue results.tail { c.fail e with encoding := none }

def drainSendQueue (results : List EncodeResult) : ServerConnection κ := drain encode c.pendingSends results c

/-! ## Calls and events -/

def reject (r : SendRequest) (outcome : TransportSendCompletion) : ServerConnection κ :=
  { c with
    requests := c.requests ++ [r]
    effects := if r.awaited then c.effects ++ [.settle c.requests.length outcome] else c.effects }

def accept (r : SendRequest) : ServerConnection κ :=
  let send := c.requests.length
  { c with
    requests := c.requests ++ [r]
    closing := c.closing || r.closeAfterWrite
    completionSends := if r.awaited then c.completionSends ++ [send] else c.completionSends
    pendingSends := c.pendingSends ++ [send]
    accepted := c.accepted ++ [send] }

/-- `_send`. -/
def send (r : SendRequest) (results : List EncodeResult) : ServerConnection κ :=
  if c.closed || c.closing then c.reject r .closed
  else match c.codec with
    | none   => if r.closeAfterWrite then (c.reject r .abandoned).close else c.reject r .abandoned
    | some _ => (c.accept r).drainSendQueue encode results

/-- `timeout` is the 30 s timer of an awaited send; `encodeResolves`, `encodeRejects` and `encodeCompletes` are the
continuations of a promised encoding; `results` are those of the encodings that begin in the event. -/
inductive TransportEvent (κ : Type)
  | detect (codec : κ)
  | send (data : List UInt8) (results : List EncodeResult)
  | sendAndWait (data : List UInt8) (results : List EncodeResult)
  | sendAndClose (data : List UInt8) (results : List EncodeResult)
  | encodeResolves (result : WriteResult)
  | encodeRejects
  | encodeCompletes (results : List EncodeResult)
  | writeCallback (send : Nat) (failed : Bool)
  | timeout (send : Nat)
  | close
  | socketClosed

def timeOut (send : Nat) : ServerConnection κ :=
  let c := settlePendingSend { c with abandoned := c.abandoned ++ [send] } send .timeout
  if send ∈ c.encoded.map Prod.fst ∨ c.encoding.isSome then c.close else c

/-- One event; `none` where it cannot happen. -/
def step (c : ServerConnection κ) : TransportEvent κ → Option (ServerConnection κ)
  | .detect codec => if c.codec.isSome then none else some { c with codec := some codec, first := some codec }
  | .send data results => some (c.send encode { data := data, closeAfterWrite := false, awaited := false } results)
  | .sendAndWait data results => some (c.send encode { data := data, closeAfterWrite := false, awaited := true } results)
  | .sendAndClose data results => some (c.send encode { data := data, closeAfterWrite := true, awaited := false } results)
  | .encodeResolves result => match c.encoding with
    | some e => if e.answered then none else some { c.writeFrame e result with encoding := some { e with answered := true } }
    | none   => none
  | .encodeRejects => match c.encoding with
    | some e => if e.answered then none else some { c.fail e with encoding := some { e with answered := true } }
    | none   => none
  | .encodeCompletes results => match c.encoding with
    | some e => if e.answered then some (drainSendQueue { c with encoding := none } encode results) else none
    | none   => none
  | .writeCallback send failed =>
    if send ∈ c.callbacks then
      some (settlePendingSend { c with callbacks := c.callbacks.erase send } send (if failed then .writeFailed else .written))
    else none
  | .timeout send => if send ∈ c.completionSends then some (c.timeOut send) else none
  | .close => some c.close
  | .socketClosed => some c.onClose

end ServerConnection

end Crossgram
