import Crossgram.Lib.Endian
import Crossgram.Lib.Readers
import Mathlib.Data.List.Basic
/-!
# VoiceIpcPayload — the fields of a voice worker payload (packages/voice-worker/src/ipc.rs)

`PayloadReader` takes a payload apart field by field and `PayloadWriter` appends the fields; each method of the reader reads
exactly what the method of the writer under the same name writes.
-/
namespace Crossgram
namespace VoiceIpc

open Endian List

inductive IpcError where
  | io
  | frameTooLarge
  | malformed
  | unsupportedVersion
deriving DecidableEq

def PROTOCOL_VERSION : UInt8 := 3
def MAX_FRAME_BYTES : Nat := 65536
def MAX_SIGNAL_BYTES : Nat := 32768
def PCM_FRAME_BYTES : Nat := 1920
def PCM_CAPABILITY_BYTES : Nat := 32
def DH_PUBLIC_BYTES : Nat := 256
def GA_HASH_BYTES : Nat := 32
def MAX_ENDPOINTS : Nat := 16
def MAX_RTC_SERVERS : Nat := 16
def MAX_HOST_BYTES : Nat := 255

/-- `[u8; N]` -/
abbrev FixedBytes (n : Nat) := {bytes : List UInt8 // bytes.length = n}

/-- `as_bytes` -/
def asBytes (text : String) : List UInt8 := text.toByteArray.data.toList

/-- `String::from_utf8` -/
def fromUtf8 (bytes : List UInt8) : Option String := String.fromUTF8? bytes.toByteArray

/-- **Bytes are a text exactly when they are the bytes of the text.** -/
theorem fromUtf8_eq_some {bytes : List UInt8} {text : String} : fromUtf8 bytes = some text ↔ bytes = asBytes text := by
  unfold fromUtf8 asBytes String.fromUTF8?
  constructor
  · intro h
    split at h
    · cases h
      exact toList_data_toByteArray.symm
    · cases h
  · rintro rfl
    have hback : text.toByteArray.data.toList.toByteArray = text.toByteArray := by
      apply ByteArray.ext
      apply Array.toList_inj.1
      exact toList_data_toByteArray
    rw [hback, dif_pos text.isValidUTF8]
    rfl

theorem asBytes_ofList (cs : List Char) : asBytes (String.ofList cs) = cs.flatMap String.utf8EncodeChar := by
  unfold asBytes
  rw [String.toByteArray_ofList, List.utf8Encode, toList_data_toByteArray]

/-! ## The fields of the writer -/

namespace PayloadWriter

def u8 (value : UInt8) : List UInt8 := [value]
def u16 (value : UInt16) : List UInt8 := Endian.big 2 value.toNat
def u32 (value : UInt32) : List UInt8 := Endian.big 4 value.toNat
def u64 (value : UInt64) : List UInt8 := Endian.big 8 value.toNat
def i64 (value : Int64) : List UInt8 := u64 value.toUInt64
def i64LE (value : Int64) : List UInt8 := (u64 value.toUInt64).reverse
def array {n : Nat} (value : FixedBytes n) : List UInt8 := value.val

def bytes (value : List UInt8) (maximum : Nat) : Except IpcError (List UInt8) :=
  if value.length > maximum ∨ value.length > 65535 then .error .malformed
  else .ok (u16 (UInt16.ofNat value.length) ++ value)

def string (value : String) : Except IpcError (List UInt8) := bytes (asBytes value) MAX_HOST_BYTES

theorem bytes_eq_ok {value : List UInt8} {maximum : Nat} {output : List UInt8} :
    bytes value maximum = .ok output ↔
      value.length ≤ maximum ∧ value.length ≤ 65535 ∧ output = u16 (UInt16.ofNat value.length) ++ value := by
  unfold bytes
  by_cases hlong : value.length > maximum ∨ value.length > 65535
  · rw [if_pos hlong]
    constructor
    · intro h
      cases h
    · rintro ⟨hmax, hword, _⟩
      omega
  · rw [if_neg hlong]
    constructor
    · intro h
      cases h
      exact ⟨by omega, by omega, rfl⟩
    · rintro ⟨_, _, rfl⟩
      rfl

end PayloadWriter

/-! ## The fields of the reader -/

abbrev PayloadReader := Readers.Reader IpcError

namespace PayloadReader

open Readers

def take (length : Nat) : PayloadReader (List UInt8) := Readers.take .malformed length

def u8 : PayloadReader UInt8 := fun input =>
  match input with
  | []            => .error .malformed
  | value :: rest => .ok (value, rest)

def u16 : PayloadReader UInt16 := do
  let bytes ← take 2
  pure (UInt16.ofNat (Endian.value bytes))

def u32 : PayloadReader UInt32 := do
  let bytes ← take 4
  pure (UInt32.ofNat (Endian.value bytes))

def u64 : PayloadReader UInt64 := do
  let bytes ← take 8
  pure (UInt64.ofNat (Endian.value bytes))

def i64 : PayloadReader Int64 := do
  let bytes ← take 8
  pure (UInt64.ofNat (Endian.value bytes)).toInt64

def i64LE : PayloadReader Int64 := do
  let bytes ← take 8
  pure (UInt64.ofNat (Endian.value bytes.reverse)).toInt64

def array (n : Nat) : PayloadReader (FixedBytes n) := do
  let bytes ← take n
  if h : bytes.length = n then pure ⟨bytes, h⟩ else throw .malformed

def bytes (maximum : Nat) : PayloadReader (List UInt8) := do
  let length ← u16
  if length.toNat > maximum then throw .malformed else take length.toNat

def textOf (value : List UInt8) : PayloadReader String :=
  match fromUtf8 value with
  | none      => throw .malformed
  | some text => pure text

def string : PayloadReader String := do
  let value ← bytes MAX_HOST_BYTES
  textOf value

def check {α : Type} (result : Except IpcError α) : PayloadReader α := fun input => result.map (fun a => (a, input))

theorem reads_check {α : Type} (result : Except IpcError α) :
    ReadsAs (check result) (fun bytes a => bytes = [] ∧ result = .ok a) := by
  intro input a rest
  show result.map (fun a => (a, input)) = .ok (a, rest) ↔ _
  cases result with
  | error e =>
    constructor
    · intro h
      cases h
    · rintro ⟨_, ⟨_, h⟩, _⟩
      cases h
  | ok b =>
    constructor
    · intro h
      cases h
      exact ⟨[], ⟨rfl, rfl⟩, rfl⟩
    · rintro ⟨_, ⟨rfl, h⟩, rfl⟩
      cases h
      rfl

theorem reads_u8 : ReadsAs u8 (fun bytes value => bytes = PayloadWriter.u8 value) := by
  intro input value rest
  constructor
  · intro h
    cases input with
    | nil => cases h
    | cons x xs =>
      cases h
      exact ⟨[value], rfl, rfl⟩
  · rintro ⟨_, rfl, rfl⟩
    rfl

theorem reads_number {α : Type} {k : Nat} (ofNat : Nat → α) (toNat : α → Nat) (hlt : ∀ a, toNat a < Endian.bound k)
    (hof : ∀ a, ofNat (toNat a) = a) (hto : ∀ n, n < Endian.bound k → toNat (ofNat n) = n) :
    ReadsAs (do let bytes ← take k; pure (ofNat (Endian.value bytes)) : PayloadReader α)
      (fun bytes a => bytes = Endian.big k (toNat a)) := by
  refine ((reads_take _ k).bind (fun bytes => reads_pure (ofNat (Endian.value bytes)))).congr (fun bytes a => ⟨?_, ?_⟩)
  · rintro ⟨first, _, _, rfl, ⟨rfl, hlen⟩, rfl, rfl⟩
    have hvalue : Endian.value first < Endian.bound k := by
      rw [← hlen]
      exact value_lt first
    rw [hto _ hvalue, big_value_of_length hlen, append_nil]
  · rintro rfl
    refine ⟨_, [], _, (append_nil _).symm, ⟨rfl, length_big _ _⟩, rfl, ?_⟩
    rw [value_big_of_lt (hlt a), hof]

theorem reads_u16 : ReadsAs u16 (fun bytes value => bytes = PayloadWriter.u16 value) :=
  reads_number UInt16.ofNat (fun a => a.toNat) (fun a => a.toNat_lt) (fun _ => UInt16.ofNat_toNat)
    (fun _ h => UInt16.toNat_ofNat'.trans (Nat.mod_eq_of_lt h))

theorem reads_u32 : ReadsAs u32 (fun bytes value => bytes = PayloadWriter.u32 value) :=
  reads_number UInt32.ofNat (fun a => a.toNat) (fun a => a.toNat_lt) (fun _ => UInt32.ofNat_toNat)
    (fun _ h => UInt32.toNat_ofNat'.trans (Nat.mod_eq_of_lt h))

theorem reads_u64 : ReadsAs u64 (fun bytes value => bytes = PayloadWriter.u64 value) :=
  reads_number UInt64.ofNat (fun a => a.toNat) (fun a => a.toNat_lt) (fun _ => UInt64.ofNat_toNat)
    (fun _ h => UInt64.toNat_ofNat'.trans (Nat.mod_eq_of_lt h))

theorem reads_i64 : ReadsAs i64 (fun bytes value => bytes = PayloadWriter.i64 value) :=
  reads_number (fun n => (UInt64.ofNat n).toInt64) (fun value => value.toUInt64.toNat)
    (fun a => a.toUInt64.toNat_lt) (fun a => by rw [UInt64.ofNat_toNat]; rfl)
    (fun _ h => UInt64.toNat_ofNat'.trans (Nat.mod_eq_of_lt h))

theorem reads_i64LE : ReadsAs i64LE (fun bytes value => bytes = PayloadWriter.i64LE value) := by
  refine ((reads_take _ 8).bind (fun bytes =>
    reads_pure (UInt64.ofNat (Endian.value bytes.reverse)).toInt64)).congr (fun bytes a => ⟨?_, ?_⟩)
  · rintro ⟨first, _, _, rfl, ⟨rfl, hlen⟩, rfl, rfl⟩
    have hlen' : first.reverse.length = 8 := length_reverse.trans hlen
    have hvalue : Endian.value first.reverse < Endian.bound 8 := by
      rw [← hlen']
      exact value_lt _
    have hnat : (UInt64.ofNat (Endian.value first.reverse)).toNat = Endian.value first.reverse :=
      UInt64.toNat_ofNat'.trans (Nat.mod_eq_of_lt hvalue)
    rw [append_nil, PayloadWriter.i64LE, PayloadWriter.u64, UInt64.toUInt64_toInt64, hnat,
      big_value_of_length hlen', reverse_reverse]
  · rintro rfl
    refine ⟨_, [], _, (append_nil _).symm, ⟨rfl, ?_⟩, rfl, ?_⟩
    · rw [PayloadWriter.i64LE, length_reverse]
      exact length_big _ _
    · rw [PayloadWriter.i64LE, reverse_reverse, PayloadWriter.u64,
        value_big_of_lt (a.toUInt64.toNat_lt), UInt64.ofNat_toNat, Int64.toInt64_toUInt64]

theorem reads_array (n : Nat) : ReadsAs (array n) (fun bytes value => bytes = PayloadWriter.array value) := by
  have hcheck : ∀ bytes : List UInt8,
      ReadsAs (if h : bytes.length = n then pure ⟨bytes, h⟩ else throw .malformed : PayloadReader (FixedBytes n))
        (fun rest value => rest = [] ∧ bytes = value.val) := by
    intro bytes
    by_cases hlen : bytes.length = n
    · rw [dif_pos hlen]
      refine (reads_pure _).congr (fun rest value => and_congr_right (fun _ => ?_))
      exact ⟨fun h => by rw [h], fun h => Subtype.ext h.symm⟩
    · rw [dif_neg hlen]
      exact (reads_throw _).congr (fun rest value => ⟨False.elim, fun h => hlen (h.2 ▸ value.property)⟩)
  refine ((reads_take _ n).bind hcheck).congr (fun bytes value => ⟨?_, ?_⟩)
  · rintro ⟨first, _, _, rfl, ⟨rfl, _⟩, rfl, rfl⟩
    exact append_nil _
  · rintro rfl
    exact ⟨_, [], _, (append_nil _).symm, ⟨rfl, value.property⟩, rfl, rfl⟩

theorem reads_bytes {maximum : Nat} (hmax : maximum ≤ 65535) :
    ReadsAs (bytes maximum) (fun output value => PayloadWriter.bytes value maximum = .ok output) := by
  refine (reads_u16.bind (fun length => (reads_take _ length.toNat).unless (length.toNat > maximum) _)).congr
    (fun output value => ?_)
  rw [PayloadWriter.bytes_eq_ok]
  constructor
  · rintro ⟨first, second, length, rfl, rfl, hle, rfl, hlen⟩
    rw [hlen, UInt16.ofNat_toNat]
    exact ⟨by omega, by omega, rfl⟩
  · rintro ⟨hle, hword, rfl⟩
    have hnat : (UInt16.ofNat value.length).toNat = value.length :=
      UInt16.toNat_ofNat'.trans (Nat.mod_eq_of_lt (by omega))
    exact ⟨_, _, _, rfl, rfl, by omega, rfl, hnat.symm⟩

theorem reads_string : ReadsAs string (fun output value => PayloadWriter.string value = .ok output) := by
  have htext : ∀ value, ReadsAs (textOf value) (fun rest text => rest = [] ∧ value = asBytes text) := by
    intro value
    unfold textOf
    cases hvalue : fromUtf8 value with
    | none =>
      refine (reads_throw _).congr (fun rest text => ⟨False.elim, fun h => ?_⟩)
      rw [fromUtf8_eq_some.2 h.2] at hvalue
      cases hvalue
    | some text =>
      refine (reads_pure _).congr (fun rest text' => and_congr_right (fun _ => ?_))
      rw [← fromUtf8_eq_some, hvalue, Option.some_inj]
      exact eq_comm
  refine ((reads_bytes (by decide)).bind htext).congr (fun output text => ⟨?_, ?_⟩)
  · rintro ⟨first, _, value, rfl, hbytes, rfl, rfl⟩
    rw [append_nil]
    exact hbytes
  · intro h
    exact ⟨output, [], asBytes text, (append_nil _).symm, h, rfl, rfl⟩

end PayloadReader

end VoiceIpc
end Crossgram
