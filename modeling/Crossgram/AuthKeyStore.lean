import Crossgram.Lib.Hex
import Crossgram.Lib.Maps
import Crossgram.Lib.Triples
/-!
# AuthKeyStore — the auth key stores (packages/mtproto/src/session/auth-key-store.ts)

Both stores hold records under the hex of their ids and a tombstone for each permanent key being revoked.  The memory
store answers at once.  The file store, on the POSIX path, writes a snapshot beside its file and renames it into place:
every file system call can fail or take the process down with it, and memory follows the rename, not the directory sync.
-/
namespace Crossgram

open Triples

structure StoredAuthKey where
  key : List UInt8
  permanentKeyId : Option (List UInt8)
  expiresAt : Option Int
  apiLayer : Option Int
deriving DecidableEq

def toHex (u : List UInt8) : String := Hex.ofBytes u

def fromHex (s : String) : List UInt8 := Hex.toBytes s

/-- What the store's operations throw: a message of its own, what the file system threw, or
`AuthKeyStorePublishedError(error, 'post-rename')`. -/
inductive StoreError
  | error (message : String)
  | fileSystem
  | published
deriving DecidableEq

def beingRevoked : StoreError := .error "auth key is being revoked"

/-! ## MemoryAuthKeyStore -/

structure MemoryAuthKeyStore where
  keys : List (String × StoredAuthKey)
  revoked : List (String × Unit)

namespace MemoryAuthKeyStore

variable (s : MemoryAuthKeyStore)

/-- `get` at `now` milliseconds; an expired record is deleted. -/
def get (id : List UInt8) (now : Int) : Option StoredAuthKey × MemoryAuthKeyStore :=
  let record := Maps.get s.keys (toHex id)
  if Maps.has s.revoked (toHex id) ||
      (record.bind (fun r => r.permanentKeyId)).any (fun p => Maps.has s.revoked (toHex p)) then (none, s)
  else if (record.bind (fun r => r.expiresAt)).any (fun e => e * 1000 ≤ now) then
    (none, { s with keys := Maps.delete s.keys (toHex id) })
  else (record, s)

def permanentId (id : List UInt8) (record : StoredAuthKey) : String :=
  match record.permanentKeyId with
  | some p => toHex p
  | none   => (((Maps.get s.keys (toHex id)).bind (fun r => r.permanentKeyId)).map toHex).getD (toHex id)

def save (id : List UInt8) (record : StoredAuthKey) : Except StoreError MemoryAuthKeyStore :=
  if Maps.has s.revoked (s.permanentId id record) then .error beingRevoked
  else .ok { s with keys := Maps.set s.keys (toHex id) record }

def beginRevocation (id : List UInt8) : MemoryAuthKeyStore := { s with revoked := Maps.set s.revoked (toHex id) () }

def boundTo (id : List UInt8) (e : String × StoredAuthKey) : Bool := e.2.permanentKeyId.any (fun p => toHex p = toHex id)

def finishRevocation (id : List UInt8) : Bool × MemoryAuthKeyStore :=
  let keys := Maps.delete s.keys (toHex id)
  (Maps.has s.keys (toHex id) || keys.any (boundTo id),
    { keys := keys.filter (fun e => !boundTo id e), revoked := Maps.delete s.revoked (toHex id) })

def recoverPendingRevocations : MemoryAuthKeyStore :=
  (s.revoked.map Prod.fst).foldl (fun s id => (s.finishRevocation (fromHex id)).2) s

def delete (id : List UInt8) : Bool × MemoryAuthKeyStore := (s.beginRevocation id).finishRevocation id

end MemoryAuthKeyStore

/-! ## The snapshot file -/

structure SerializedAuthKey where
  key : String
  permanentKeyId : Option String
  expiresAt : Option Int
  apiLayer : Option Int
deriving DecidableEq

/-- `_keys` and `_revoked`. -/
structure FileAuthKeyStore where
  keys : List (String × SerializedAuthKey)
  revoked : List (String × Unit)

/-- The text at `_path`, as `JSON.parse` reads it; a key may be the bare hex of an old format. -/
inductive AuthKeyFile
  | absent
  | unreadable
  | legacy (keys : List (String × (String ⊕ SerializedAuthKey)))
  | envelope (keys : List (String × (String ⊕ SerializedAuthKey))) (revoked : List String)
deriving DecidableEq

/-- `Object.entries(keys)` read into the map. -/
def readKeys (keys : List (String × (String ⊕ SerializedAuthKey))) : List (String × SerializedAuthKey) :=
  Maps.ofList (keys.map (fun e => (e.1, match e.2 with
    | .inl key   => { key := key, permanentKeyId := none, expiresAt := none, apiLayer := none }
    | .inr value => value)))

def AuthKeyFile.load : AuthKeyFile → FileAuthKeyStore
  | .absent                => { keys := [], revoked := [] }
  | .unreadable            => { keys := [], revoked := [] }
  | .legacy keys           => { keys := readKeys keys, revoked := [] }
  | .envelope keys revoked => { keys := readKeys keys, revoked := Maps.ofList (revoked.map (fun id => (id, ()))) }

/-- `SerializedAuthKeyEnvelope`, version 1. -/
def FileAuthKeyStore.snapshot (s : FileAuthKeyStore) : AuthKeyFile :=
  .envelope (s.keys.map (fun e => (e.1, .inr e.2))) (s.revoked.map Prod.fst)

/-! ## FileAuthKeyStore -/

inductive Outcome
  | completes
  | fails
  | diesBefore
  | diesAfter

inductive Interruption
  | threw (error : StoreError)
  | died
deriving DecidableEq

structure Process where
  file : AuthKeyFile
  store : FileAuthKeyStore
  outcomes : List Outcome

abbrev StoreM (α : Type) := Program Process Interruption α

def nextOutcome : StoreM Outcome := do
  let p ← get
  set { p with outcomes := p.outcomes.tail }
  pure (p.outcomes.headD .completes)

def fileSystemCall : StoreM Unit := do
  match ← nextOutcome with
  | .completes => pure ()
  | .fails => throw (.threw .fileSystem)
  | .diesBefore | .diesAfter => throw .died

def renameSync (file : AuthKeyFile) : StoreM Unit := do
  match ← nextOutcome with
  | .completes => modify (fun p => { p with file := file })
  | .fails => throw (.threw .fileSystem)
  | .diesBefore => throw .died
  | .diesAfter =>
    modify (fun p => { p with file := file })
    throw .died

/-- `try … finally …`: nothing runs in a process that died, and what the last part throws wins. -/
def withFinally (body last : StoreM Unit) : StoreM Unit := do
  match ← tryCatch (do body; pure none) (fun e => pure (some e)) with
  | none => last
  | some .died => throw .died
  | some (.threw error) =>
    last
    throw (.threw error)

def syncPath : StoreM Unit := do
  fileSystemCall
  withFinally fileSystemCall fileSystemCall

/-- `_flush`: a directory sync that fails leaves the snapshot published. -/
def flush (next : FileAuthKeyStore) (onPublished : StoreM Unit) : StoreM Unit := do
  fileSystemCall
  fileSystemCall
  syncPath
  renameSync next.snapshot
  onPublished
  tryCatch syncPath (fun
    | .threw _ => throw (.threw .published)
    | .died    => throw .died)

def commit (next : FileAuthKeyStore) : StoreM Unit := flush next (modify (fun p => { p with store := next }))

namespace FileAuthKeyStore

variable (s : FileAuthKeyStore)

/-- `get` at `now` milliseconds.  An empty text is falsy. -/
def get (id : List UInt8) (now : Int) : Option StoredAuthKey :=
  match Maps.get s.keys (toHex id) with
  | none       => none
  | some value =>
    if Maps.has s.revoked (toHex id) || value.permanentKeyId.any (fun p => p ≠ "" && Maps.has s.revoked p) then none
    else if value.expiresAt.any (fun e => e * 1000 ≤ now) then none
    else some
      { key := fromHex value.key
        permanentKeyId := (value.permanentKeyId.filter (fun p => p ≠ "")).map fromHex
        expiresAt := value.expiresAt
        apiLayer := value.apiLayer }

def permanentId (id : List UInt8) (record : StoredAuthKey) : String :=
  match record.permanentKeyId with
  | some p => toHex p
  | none   => ((Maps.get s.keys (toHex id)).bind (fun value => value.permanentKeyId)).getD (toHex id)

def serialize (record : StoredAuthKey) : SerializedAuthKey :=
  { key := toHex record.key
    permanentKeyId := record.permanentKeyId.map toHex
    expiresAt := record.expiresAt
    apiLayer := record.apiLayer }

def withRecord (id : List UInt8) (record : StoredAuthKey) : FileAuthKeyStore :=
  { s with keys := Maps.set s.keys (toHex id) (serialize record) }

def withTombstone (id : List UInt8) : FileAuthKeyStore := { s with revoked := Maps.set s.revoked (toHex id) () }

def boundTo (id : List UInt8) (e : String × SerializedAuthKey) : Bool := e.2.permanentKeyId = some (toHex id)

def withoutKeys (id : List UInt8) : FileAuthKeyStore :=
  { s with keys := (Maps.delete s.keys (toHex id)).filter (fun e => !boundTo id e) }

def withoutTombstone (id : List UInt8) : FileAuthKeyStore := { s with revoked := Maps.delete s.revoked (toHex id) }

def save (id : List UInt8) (record : StoredAuthKey) : StoreM Unit := do
  let p ← getThe Process
  if Maps.has p.store.revoked (p.store.permanentId id record) then
    throw (.threw beingRevoked)
  commit (p.store.withRecord id record)

def beginRevocation (id : List UInt8) : StoreM Unit := do
  let p ← getThe Process
  commit (p.store.withTombstone id)

def finishRevocation (id : List UInt8) : StoreM Bool := do
  let p ← getThe Process
  let deleted := Maps.has p.store.keys (toHex id) || (Maps.delete p.store.keys (toHex id)).any (boundTo id)
  commit (p.store.withoutKeys id)
  let p ← getThe Process
  commit (p.store.withoutTombstone id)
  pure deleted

def recoverPendingRevocations : StoreM Unit := do
  let p ← getThe Process
  (p.store.revoked.map Prod.fst).forM (fun id => do
    let _ ← finishRevocation (fromHex id)
    pure ⟨⟩)

def delete (id : List UInt8) : StoreM Bool := do
  beginRevocation id
  finishRevocation id

end FileAuthKeyStore

/-! ## Processes that come and go -/

/-- The file, and the store of the process that runs on it. -/
structure AuthKeyHost where
  file : AuthKeyFile
  store : Option FileAuthKeyStore

/-- `restart` kills the process that runs, if one does, builds a store from the file and recovers. -/
inductive Operation
  | save (id : List UInt8) (record : StoredAuthKey)
  | beginRevocation (id : List UInt8)
  | finishRevocation (id : List UInt8)
  | delete (id : List UInt8)
  | restart

structure Request where
  operation : Operation
  outcomes : List Outcome

namespace AuthKeyHost

abbrev Reply := Option (Except Interruption Bool)

def run (h : AuthKeyHost) (m : StoreM Bool) (outcomes : List Outcome) : AuthKeyHost × Reply :=
  match h.store with
  | none       => (h, none)
  | some store =>
    let (result, p) := exec m { file := h.file, store := store, outcomes := outcomes }
    ({ file := p.file, store := if result = .error .died then none else some p.store }, some result)

def step (h : AuthKeyHost) (r : Request) : AuthKeyHost × Reply :=
  match r.operation with
  | .save id record      => h.run (do FileAuthKeyStore.save id record; pure true) r.outcomes
  | .beginRevocation id  => h.run (do FileAuthKeyStore.beginRevocation id; pure true) r.outcomes
  | .finishRevocation id => h.run (FileAuthKeyStore.finishRevocation id) r.outcomes
  | .delete id           => h.run (FileAuthKeyStore.delete id) r.outcomes
  | .restart             => { h with store := some h.file.load }.run
    (do FileAuthKeyStore.recoverPendingRevocations; pure true) r.outcomes

/-- `get`, where a process runs. -/
def get (h : AuthKeyHost) (id : List UInt8) (now : Int) : Option StoredAuthKey := h.store.bind (fun s => s.get id now)

def started (file : AuthKeyFile) : AuthKeyHost := { file := file, store := some file.load }

end AuthKeyHost

end Crossgram
