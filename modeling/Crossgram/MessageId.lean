import Crossgram.StableJson
/-!
# MessageId — Telegram message ids on a time scale (packages/bridge/src/message-id.ts)

Sixteen ids to a second, counted from a scope's epoch; the first message of a scope lands in the middle of the id space.
-/
namespace Crossgram

inductive JsError
  | error (message : String)
  | rangeError (message : String)

def telegramMessageIdMax : Int := 0x7fffffff

def timestampMessageIdSlots : Int := 16

def timestampMessageIdMaxSecond : Int := (telegramMessageIdMax - timestampMessageIdSlots + 1) / timestampMessageIdSlots

def timestampMessageIdInitialSecond : Int := 0x40000000 / timestampMessageIdSlots

/-- `Number.isSafeInteger` of a whole number. -/
def isSafeInteger (value : Int) : Bool := -9007199254740991 ≤ value ∧ value ≤ 9007199254740991

/-- The digits of `/^[1-9]\d*$/`, read as a number. -/
def decimalDigits : List Char → Option Nat
  | []      => none
  | c :: cs =>
    if ('1' ≤ c ∧ c ≤ '9') ∧ cs.all Char.isDigit then
      some ((c :: cs).foldl (fun n d => 10 * n + (d.toNat - '0'.toNat)) 0)
    else none

def positiveSequence : Option Json → Option Nat
  | some (.num value) => if value.den = 1 ∧ isSafeInteger value.num ∧ 0 < value.num then some value.num.toNat else none
  | some (.str value) => (decimalDigits value.toList).filter (fun parsed => isSafeInteger parsed)
  | _                 => none

def qqMessageSequenceFromMetadata (metadata : JsonObject) : Option Nat :=
  positiveSequence (Json.property (.obj metadata) "qqMsgSeq")

def assertTimestamp (value : Int) : Except JsError Unit :=
  if isSafeInteger value then .ok ()
  else .error (.rangeError "message timestamp must be a safe integer number of seconds")

def initialTimestampMessageIdEpoch (timestamp : Int) : Except JsError Int := do
  assertTimestamp timestamp
  return timestamp - timestampMessageIdInitialSecond

def clampedTimestampMessageIdBucket (epoch timestamp : Int) : Except JsError Int := do
  assertTimestamp epoch
  assertTimestamp timestamp
  return max 1 (min timestampMessageIdMaxSecond (timestamp - epoch)) * timestampMessageIdSlots

def messageIdBucketStart (messageId : Int) : Int := messageId / timestampMessageIdSlots * timestampMessageIdSlots

end Crossgram
