import Crossgram.MessageTables
/-!
# MessageProjection — the Telegram parts of a message (packages/bridge/src/message-store.ts, `_ensureProjection`)

A message is shown as as many parts as its plan has.  Parts under another scope or allocation version are replaced, parts
past the plan are removed, the ones that stay keep their ids, and missing ones get ids from the slot search.  The steps
are `retire`, `resequence`, `regroup`, `addParts` and `refresh`, in the order of the source.
-/
namespace Crossgram

def timestampAllocationVersion : Nat := 1

structure MessageProjectionPlan where
  parts : List (Option Nat)
  grouped : Bool

def defaultPlan (article : Bool) (media : List IMMediaRow) : MessageProjectionPlan :=
  { parts :=
      if article then [media.head?.map (fun item => item.partIndex)]
      else if media ≠ [] then media.map (fun item => some item.partIndex)
      else [none]
    grouped := !article && 1 < media.length && (media.map (fun item => item.kind)).dedup.length == 1 }

def projectionMediaId (plan : MessageProjectionPlan) (media : List IMMediaRow) (ordinal : Nat) : Option Nat :=
  match plan.parts[ordinal]? with
  | some (some partIndex) => (media.find? (fun item => item.partIndex = partIndex)).map (fun item => item.id)
  | _                     => none

def projectionScope (platformSessionId : String) (conversation : IMConversationRow) : String :=
  if conversation.kind ≠ .direct then
    "channel:" ++ platformSessionId ++ ":"
      ++ conversation.parentPlatformConversationId.getD conversation.platformConversationId
  else "account:" ++ platformSessionId

structure Projecting where
  platformSessionId : String
  conversationId : Nat
  messageId : Nat
  scope : String
  nativeSequence : Option Nat
  nativeOrderKey : Option String
  plan : MessageProjectionPlan
  media : List IMMediaRow
  timestamp : Int
  allocation : Allocation

namespace Projecting

variable (p : Projecting)

def count : Nat := p.plan.parts.length

/-! ## The steps -/

def isStale (part : TlMessagePartRow) : Bool :=
  part.scope ≠ p.scope ∨ part.allocationVersion ≠ some timestampAllocationVersion

def staying (existing : List TlMessagePartRow) : List TlMessagePartRow :=
  if existing.any p.isStale then [] else existing.take p.count

def leaving (existing : List TlMessagePartRow) : List TlMessagePartRow :=
  if existing.any p.isStale then existing else existing.drop p.count

def among (parts : List TlMessagePartRow) (row : TlMessagePartRow) : Bool := parts.any (fun part => part.id = row.id)

def retire (t : MessageTables) (existing : List TlMessagePartRow) : MessageTables :=
  { t with parts := t.parts.remove (among (p.leaving existing)) }

def resequence (t : MessageTables) (staying : List TlMessagePartRow) : MessageTables :=
  { t with
    parts := t.parts.set (among staying)
      (fun row => { row with
        nativeSequence := p.nativeSequence.or row.nativeSequence
        nativeOrderKey := p.nativeOrderKey.or row.nativeOrderKey }) (fun _ => rfl)
    partEvents := t.partEvents ++ staying.filterMap (fun part => match p.nativeSequence with
      | some nativeSequence =>
        if part.nativeSequence ≠ some nativeSequence then some (.resequenced part nativeSequence) else none
      | none => none) }

def ofMessage (row : TlMessagePartRow) : Bool := row.messageId = p.messageId

def setGroupedId (t : MessageTables) (groupedId : Option String) : MessageTables :=
  { t with parts := t.parts.set p.ofMessage (fun row => { row with groupedId := groupedId }) (fun _ => rfl) }

def groupedIdOf (parts : List TlMessagePartRow) : Option String :=
  parts.findSome? (fun part => part.groupedId.filter (fun id => id ≠ ""))

def regroup (t : MessageTables) (existing staying : List TlMessagePartRow) :
    Except JsError (MessageTables × Option String) :=
  let groupable := p.plan.grouped ∧ 1 < p.count
  let groupedId := (groupedIdOf staying).or (groupedIdOf existing)
  if ¬groupable ∧ groupedId.isSome then .ok (p.setGroupedId t none, none)
  else if groupable ∧ groupedId.isNone then do
    let (counters, ids) ← allocateIds t.counters ("group:" ++ p.platformSessionId) 1
    let groupedId := ids.head?.map toString
    let t := { t with counters := counters }
    return (if staying ≠ [] then p.setGroupedId t groupedId else t, groupedId)
  else .ok (t, groupedId)

def bounds (parts : List TlMessagePartRow) : IdBounds :=
  match p.nativeSequence, p.nativeOrderKey with
  | some nativeSequence, _               => nativeSequenceBounds parts p.conversationId nativeSequence
  | none,                some nativeOrderKey => nativeOrderKeyBounds parts p.scope nativeOrderKey
  | none,                none            => {}

def preferred (t : MessageTables) (cache : List (String × Int)) (bounds : IdBounds) :
    Except JsError ((List (String × Int) × List (String × Int)) × Int) :=
  match p.nativeOrderKey with
  | some _ => .ok ((t.epochs, cache), orderedMessagePreferredId bounds)
  | none   => do
    let (known, epoch) ← messageIdEpoch t.epochs cache p.scope p.timestamp
    let bucket ← clampedTimestampMessageIdBucket epoch p.timestamp
    return (known, bucket)

def request (staying : List TlMessagePartRow) (bounds : IdBounds) (preferredId : Int) : SlotRequest :=
  { scope := p.scope, count := p.count - staying.length, preferredId := preferredId, allocation := p.allocation,
    centerSlots := p.nativeSequence.isSome || p.nativeOrderKey.isSome,
    existingIds := staying.map (fun part => part.tlMessageId), bounds := bounds }

/-- A new part; under `ordinal` an old one would be overwritten. -/
def partRow (groupedId : Option String) (ordinal : Nat) (tlMessageId : Int) (id : Nat) : TlMessagePartRow :=
  { id := id, platformSessionId := p.platformSessionId, conversationId := p.conversationId, messageId := p.messageId,
    mediaId := projectionMediaId p.plan p.media ordinal, scope := p.scope, tlMessageId := tlMessageId,
    nativeSequence := p.nativeSequence, nativeOrderKey := p.nativeOrderKey,
    allocationVersion := some timestampAllocationVersion, groupedId := groupedId, ordinal := ordinal }

def hasOrdinal (ordinal : Nat) (row : TlMessagePartRow) : Bool := row.messageId = p.messageId ∧ row.ordinal = ordinal

/-- `upsert` of the new parts under (`messageId`, `ordinal`), the first one at `ordinal`. -/
def upsertParts (groupedId : Option String) : Nat → List Int → Table TlMessagePartRow → Table TlMessagePartRow
  | _,       [],                parts => parts
  | ordinal, tlMessageId :: ids, parts => upsertParts groupedId (ordinal + 1) ids
      (parts.upsert (p.hasOrdinal ordinal) (fun row => p.partRow groupedId ordinal tlMessageId row.id) (fun _ => rfl)
        (p.partRow groupedId ordinal tlMessageId) (fun _ => rfl))

def addParts (t : MessageTables) (cache : List (String × Int)) (staying : List TlMessagePartRow)
    (groupedId : Option String) : Except JsError ((MessageTables × List (String × Int)) × List Int) :=
  if p.count ≤ staying.length then .ok ((t, cache), [])
  else do
    let bounds := p.bounds t.parts.rows
    let ((epochs, cache), preferredId) ← p.preferred t cache bounds
    let request := p.request staying bounds preferredId
    let ids ← request.allocateSlottedMessageIds t.parts.rows
    return (({ t with
      epochs := epochs
      parts := p.upsertParts groupedId staying.length ids t.parts
      partEvents := t.partEvents ++ [.allocated p.conversationId p.nativeSequence request t.parts.rows] }, cache), ids)

def refreshed (groupedId : Option String) (row : TlMessagePartRow) : TlMessagePartRow :=
  { row with mediaId := projectionMediaId p.plan p.media row.ordinal, groupedId := groupedId }

def refresh (t : MessageTables) (groupedId : Option String) : MessageTables :=
  { t with parts := t.parts.set p.ofMessage (p.refreshed groupedId) (fun _ => rfl) }

/-! ## `_ensureProjection` -/

/-- What `_ensureProjection` answers. -/
structure Projected where
  projection : List TlMessagePartRow
  addedTlMessageIds : List Int
  removedTlMessageIds : List Int

def ensureProjection (t : MessageTables) (cache : List (String × Int)) :
    Except JsError ((MessageTables × List (String × Int)) × Projected) := do
  if p.plan.parts = [] then
    throw (.error "message projection plan must contain at least one part")
  let existing := partsOf t.parts p.messageId
  let staying := p.staying existing
  let t := p.resequence (p.retire t existing) staying
  let (t, groupedId) ← p.regroup t existing staying
  let ((t, cache), ids) ← p.addParts t cache staying groupedId
  let t := p.refresh t groupedId
  return ((t, cache), {
    projection := partsOf t.parts p.messageId
    addedTlMessageIds := ids
    removedTlMessageIds := (p.leaving existing).map (fun part => part.tlMessageId) })

end Projecting

end Crossgram
