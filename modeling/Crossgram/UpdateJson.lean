import Crossgram.Lib.Base64
import Crossgram.Lib.Decimals
import Crossgram.Lib.Maps
import Crossgram.Lib.Results
import Crossgram.PeerIds
/-!
# UpdateJson — updates as portable JSON (packages/bridge/src/update-json.ts)

An update is stored as JSON.  A bigint, a `Long` and bytes become tagged objects and are read back from them.  The
fields of an object stand in the order in which `Object.entries` lists them; a new object that gets them in that order
lists them in the same one.
-/
namespace Crossgram
namespace UpdateJson

open List PeerIds

/-! ## Values -/

structure JsNumber where
  bits : UInt64

/-- `Number.isFinite`: the exponent is not all ones. -/
def JsNumber.isFinite (x : JsNumber) : Bool := decide (x.bits.toNat / 4503599627370496 % 2048 ≠ 2047)

/-- The 64 bits of a `Long` and its signedness. -/
structure Long where
  bits : UInt64
  unsigned : Bool

def Long.toInt (l : Long) : Int :=
  if l.unsigned = true ∨ l.bits.toNat < 9223372036854775808 then l.bits.toNat else l.bits.toNat - 18446744073709551616

def Long.ofInt (n : Int) (unsigned : Bool) : Long := ⟨UInt64.ofNat (n % 18446744073709551616).toNat, unsigned⟩

/-- The numbers a `Long` of this signedness has. -/
def Long.InRange (n : Int) : Bool → Prop
  | true  => 0 ≤ n ∧ n < 18446744073709551616
  | false => -9223372036854775808 ≤ n ∧ n < 9223372036854775808

/-- The two functions of the `long` package. -/
structure LongPackage where
  toString : Long → JsString
  fromString : JsString → Bool → Option Long

/-- What the package documents: the decimal text of a number, and the number of a decimal text that is in range. -/
structure LongPackage.Documented (long : LongPackage) : Prop where
  writes : ∀ l, long.toString l = Decimals.ofInt l.toInt
  reads : ∀ n unsigned, Long.InRange n unsigned → long.fromString (Decimals.ofInt n) unsigned = some (Long.ofInt n unsigned)

/-- What an update is built from; `other` is what has no place in one, by its `typeof`. -/
inductive TlValue
  | undefined
  | null
  | boolean (value : Bool)
  | number (value : JsNumber)
  | string (value : JsString)
  | bigint (value : Int)
  | long (value : Long)
  | bytes (value : List UInt8)
  | array (items : List TlValue)
  | object (fields : List (JsString × TlValue))
  | other (typeName : String)

/-- `inheriting` is an object whose prototype was replaced. -/
inductive UpdateJsonValue
  | null
  | boolean (value : Bool)
  | number (value : JsNumber)
  | string (value : JsString)
  | array (items : List UpdateJsonValue)
  | object (fields : List (JsString × UpdateJsonValue))
  | inheriting (prototype : UpdateJsonValue) (fields : List (JsString × UpdateJsonValue))

inductive JsError
  | typeError (message : String)
  /-- `BigInt` of what is no number. -/
  | syntaxError
  /-- `Long.fromString` of what is no number. -/
  | longError

def typeKey : JsString := text ['$', 'm', 't', 'p', 'r', 'o', 't', 'o', 'R', 'e', 'l', 'a', 'y', 'T', 'y', 'p', 'e']
def valueKey : JsString := text ['v', 'a', 'l', 'u', 'e']
def unsignedKey : JsString := text ['u', 'n', 's', 'i', 'g', 'n', 'e', 'd']

def protoKey : JsString := text ['_', '_', 'p', 'r', 'o', 't', 'o', '_', '_']

def bigintTag : JsString := text ['b', 'i', 'g', 'i', 'n', 't']
def longTag : JsString := text ['l', 'o', 'n', 'g']
def bytesTag : JsString := text ['b', 'y', 't', 'e', 's']

/-! ## Writing -/

structure JsObject where
  prototype : Option UpdateJsonValue := none
  fields : List (JsString × UpdateJsonValue) := []

/-- `output[key] = encoded` for a key that was not assigned yet. -/
def JsObject.assign (output : JsObject) (key : JsString) (encoded : UpdateJsonValue) : JsObject :=
  if key = protoKey then
    match encoded with
    | .boolean _ | .number _ | .string _ => output
    | prototype                          => { output with prototype := some prototype }
  else { output with fields := output.fields ++ [(key, encoded)] }

def JsObject.value (output : JsObject) : UpdateJsonValue :=
  match output.prototype with
  | none           => .object output.fields
  | some prototype => .inheriting prototype output.fields

section
variable (long : LongPackage)

mutual

/-- `none` is `undefined`. -/
def toJsonValue : TlValue → Except JsError (Option UpdateJsonValue)
  | .undefined      => .ok none
  | .null           => .ok (some .null)
  | .string value   => .ok (some (.string value))
  | .boolean value  => .ok (some (.boolean value))
  | .number value   =>
    if value.isFinite then .ok (some (.number value))
    else .error (.typeError "Telegram update JSON cannot contain a non-finite number")
  | .bigint value   => .ok (some (.object [(typeKey, .string bigintTag), (valueKey, .string (Decimals.ofInt value))]))
  | .long value     =>
    .ok (some (.object [(typeKey, .string longTag), (valueKey, .string (long.toString value)),
      (unsignedKey, .boolean value.unsigned)]))
  | .bytes value    => .ok (some (.object [(typeKey, .string bytesTag), (valueKey, .string (Base64.encode value))]))
  | .array items    => do
    let encoded ← toJsonItems items
    .ok (some (.array encoded))
  | .object fields  => do
    let output ← assignFields {} fields
    .ok (some output.value)
  | .other typeName => .error (.typeError ("Telegram update JSON cannot contain " ++ typeName))

/-- `value.map((item) => toJsonValue(item) ?? null)` -/
def toJsonItems : List TlValue → Except JsError (List UpdateJsonValue)
  | []            => .ok []
  | item :: items => do
    let encoded ← toJsonValue item
    let rest ← toJsonItems items
    .ok (encoded.getD .null :: rest)

def assignFields (output : JsObject) : List (JsString × TlValue) → Except JsError JsObject
  | []                     => .ok output
  | (key, child) :: fields => do
    match ← toJsonValue child with
    | none         => assignFields output fields
    | some encoded => assignFields (output.assign key encoded) fields

end

def updateToJson (update : TlValue) : Except JsError (Option UpdateJsonValue) := toJsonValue long update

/-! ## Reading -/

/-- `value[key]`: a field, or one of the prototype. -/
def UpdateJsonValue.property (key : JsString) : UpdateJsonValue → Option UpdateJsonValue
  | .object fields               => Maps.get fields key
  | .inheriting prototype fields =>
    match Maps.get fields key with
    | some value => some value
    | none       => prototype.property key
  | _                            => none

/-- What a tagged object stands for; `none` for an object without a tag. -/
def decodeTagged (value : UpdateJsonValue) : Option (Except JsError TlValue) :=
  match value.property typeKey, value.property valueKey with
  | some (.string tag), some (.string encoded) =>
    if tag = longTag then
      let unsigned := match value.property unsignedKey with
        | some (.boolean unsigned) => unsigned
        | _                        => false
      some (match long.fromString encoded unsigned with
        | some l => .ok (.long l)
        | none   => .error .longError)
    else if tag = bytesTag then some (.ok (.bytes (Base64.decode encoded)))
    else if tag = bigintTag then
      some (match Decimals.toInt encoded with
        | some n => .ok (.bigint n)
        | none   => .error .syntaxError)
    else none
  | _, _ => none

mutual

def fromJsonValue : UpdateJsonValue → Except JsError TlValue
  | .null          => .ok .null
  | .boolean value => .ok (.boolean value)
  | .number value  => .ok (.number value)
  | .string value  => .ok (.string value)
  | .array items   => do
    let items ← fromJsonItems items
    .ok (.array items)
  | .object fields =>
    match decodeTagged long (.object fields) with
    | some result => result
    | none        => do
      let fields ← fromJsonFields fields
      .ok (.object fields)
  | .inheriting prototype fields =>
    match decodeTagged long (.inheriting prototype fields) with
    | some result => result
    | none        => do
      let fields ← fromJsonFields fields
      .ok (.object fields)

def fromJsonItems : List UpdateJsonValue → Except JsError (List TlValue)
  | []            => .ok []
  | item :: items => do
    let value ← fromJsonValue item
    let rest ← fromJsonItems items
    .ok (value :: rest)

def fromJsonFields : List (JsString × UpdateJsonValue) → Except JsError (List (JsString × TlValue))
  | []                     => .ok []
  | (key, child) :: fields => do
    let value ← fromJsonValue child
    let rest ← fromJsonFields fields
    .ok ((key, value) :: rest)

end

def updateFromJson (payload : UpdateJsonValue) : Except JsError TlValue := fromJsonValue long payload

end

/-! ## What can be stored -/

mutual

/-- Every number in it is finite, and nothing in it is a function or a symbol. -/
def Representable : TlValue → Prop
  | .number value  => value.isFinite = true
  | .array items   => RepresentableItems items
  | .object fields => RepresentableFields fields
  | .other _       => False
  | _              => True

def RepresentableItems : List TlValue → Prop
  | []            => True
  | item :: items => Representable item ∧ RepresentableItems items

def RepresentableFields : List (JsString × TlValue) → Prop
  | []                   => True
  | (_, child) :: fields => Representable child ∧ RepresentableFields fields

end

mutual

def Keyed (reserved : List JsString) : TlValue → Prop
  | .array items   => KeyedItems reserved items
  | .object fields =>
    ((fields.map Prod.fst).Nodup ∧ ∀ key ∈ reserved, key ∉ fields.map Prod.fst) ∧ KeyedFields reserved fields
  | _              => True

def KeyedItems (reserved : List JsString) : List TlValue → Prop
  | []            => True
  | item :: items => Keyed reserved item ∧ KeyedItems reserved items

def KeyedFields (reserved : List JsString) : List (JsString × TlValue) → Prop
  | []                   => True
  | (_, child) :: fields => Keyed reserved child ∧ KeyedFields reserved fields

end

mutual

def Portable : UpdateJsonValue → Prop
  | .number value   => value.isFinite = true
  | .array items    => PortableItems items
  | .object fields  => (fields.map Prod.fst).Nodup ∧ PortableFields fields
  | .inheriting _ _ => False
  | _               => True

def PortableItems : List UpdateJsonValue → Prop
  | []            => True
  | item :: items => Portable item ∧ PortableItems items

def PortableFields : List (JsString × UpdateJsonValue) → Prop
  | []                   => True
  | (_, child) :: fields => Portable child ∧ PortableFields fields

end

mutual

/-- What is kept of a value: no undefined field, and `null` for an undefined item. -/
def kept : TlValue → TlValue
  | .array items   => .array (keptItems items)
  | .object fields => .object (keptFields fields)
  | value          => value

def keptItems : List TlValue → List TlValue
  | []                  => []
  | .undefined :: items => .null :: keptItems items
  | item :: items       => kept item :: keptItems items

def keptFields : List (JsString × TlValue) → List (JsString × TlValue)
  | []                        => []
  | (_, .undefined) :: fields => keptFields fields
  | (key, child) :: fields    => (key, kept child) :: keptFields fields

end

/-! ## Numbers of 64 bits -/

theorem Long.toInt_inRange (l : Long) : Long.InRange l.toInt l.unsigned := by
  have hbits := l.bits.toNat_lt
  unfold Long.toInt
  cases hunsigned : l.unsigned with
  | true  =>
    rw [if_pos (.inl rfl)]
    show 0 ≤ (l.bits.toNat : Int) ∧ (l.bits.toNat : Int) < 18446744073709551616
    omega
  | false =>
    show -9223372036854775808 ≤ _ ∧ _ < (9223372036854775808 : Int)
    split
    · rename_i hlt
      rcases hlt with hlt | hlt
      · cases hlt
      · omega
    · omega

theorem Long.ofInt_toInt (l : Long) : Long.ofInt l.toInt l.unsigned = l := by
  have hbits := l.bits.toNat_lt
  have hmod : (l.toInt % 18446744073709551616).toNat = l.bits.toNat := by
    unfold Long.toInt
    split <;> omega
  rw [Long.ofInt, hmod, UInt64.ofNat_toNat]

/-- **A number of 64 bits is read back from its text**, with its signedness. -/
theorem LongPackage.Documented.fromString_toString {long : LongPackage} (h : long.Documented) (l : Long) :
    long.fromString (long.toString l) l.unsigned = some l := by
  rw [h.writes, h.reads _ _ l.toInt_inRange, l.ofInt_toInt]

section
variable {long : LongPackage}

/-! ## Tagged objects -/

theorem decodeTagged_bigint (n : Int) :
    decodeTagged long (.object [(typeKey, .string bigintTag), (valueKey, .string (Decimals.ofInt n))]) =
      some (.ok (.bigint n)) := by
  have hread : decodeTagged long (.object [(typeKey, .string bigintTag), (valueKey, .string (Decimals.ofInt n))]) =
      some (match Decimals.toInt (Decimals.ofInt n) with
        | some n => .ok (.bigint n)
        | none   => .error .syntaxError) := rfl
  rw [hread, Decimals.toInt_ofInt]

theorem decodeTagged_bytes (bytes : List UInt8) :
    decodeTagged long (.object [(typeKey, .string bytesTag), (valueKey, .string (Base64.encode bytes))]) =
      some (.ok (.bytes bytes)) := by
  have hread : decodeTagged long (.object [(typeKey, .string bytesTag), (valueKey, .string (Base64.encode bytes))]) =
      some (.ok (.bytes (Base64.decode (Base64.encode bytes)))) := rfl
  rw [hread, Base64.decode_encode]

theorem decodeTagged_long (h : long.Documented) (l : Long) :
    decodeTagged long (.object [(typeKey, .string longTag), (valueKey, .string (long.toString l)),
      (unsignedKey, .boolean l.unsigned)]) = some (.ok (.long l)) := by
  have hread : decodeTagged long (.object [(typeKey, .string longTag), (valueKey, .string (long.toString l)),
      (unsignedKey, .boolean l.unsigned)]) = some (match long.fromString (long.toString l) l.unsigned with
        | some l => .ok (.long l)
        | none   => .error .longError) := rfl
  rw [hread, h.fromString_toString]

theorem nodup_tagKeys : [typeKey, valueKey, unsignedKey].Nodup ∧ [typeKey, valueKey].Nodup := by decide

theorem decodeTagged_none {fields : List (JsString × UpdateJsonValue)} (h : typeKey ∉ fields.map Prod.fst) :
    decodeTagged long (.object fields) = none := by
  have hget : (UpdateJsonValue.object fields).property typeKey = none :=
    Maps.get_eq_none.2 (fun e he heq => h (heq ▸ mem_map_of_mem he))
  unfold decodeTagged
  rw [hget]

/-! ## Writing and reading back -/

mutual

/-- **What can be represented is written.** -/
theorem toJsonValue_ok (long : LongPackage) : ∀ v : TlValue, Representable v → ∃ r, toJsonValue long v = .ok r
  | .undefined,     _ => ⟨_, rfl⟩
  | .null,          _ => ⟨_, rfl⟩
  | .boolean _,     _ => ⟨_, rfl⟩
  | .number _,      h => ⟨_, if_pos h⟩
  | .string _,      _ => ⟨_, rfl⟩
  | .bigint _,      _ => ⟨_, rfl⟩
  | .long _,        _ => ⟨_, rfl⟩
  | .bytes _,       _ => ⟨_, rfl⟩
  | .array items,   h => by
    obtain ⟨encoded, hencoded⟩ := toJsonItems_ok long items h
    exact ⟨some (.array encoded), by rw [toJsonValue, hencoded]; rfl⟩
  | .object fields, h => by
    obtain ⟨output, houtput⟩ := assignFields_ok long fields {} h
    exact ⟨some output.value, by rw [toJsonValue, houtput]; rfl⟩
  | .other _,       h => h.elim

theorem toJsonItems_ok (long : LongPackage) : ∀ items : List TlValue, RepresentableItems items →
    ∃ encoded, toJsonItems long items = .ok encoded
  | [],            _ => ⟨[], rfl⟩
  | item :: items, h => by
    obtain ⟨encoded, hencoded⟩ := toJsonValue_ok long item h.1
    obtain ⟨rest, hrest⟩ := toJsonItems_ok long items h.2
    exact ⟨encoded.getD .null :: rest, by rw [toJsonItems, hencoded, hrest]; rfl⟩

theorem assignFields_ok (long : LongPackage) : ∀ (fields : List (JsString × TlValue)) (output : JsObject),
    RepresentableFields fields → ∃ output', assignFields long output fields = .ok output'
  | [],                     output, _ => ⟨output, rfl⟩
  | (key, child) :: fields, output, h => by
    obtain ⟨encoded, hencoded⟩ := toJsonValue_ok long child h.1
    cases encoded with
    | none         =>
      obtain ⟨output', houtput'⟩ := assignFields_ok long fields output h.2
      exact ⟨output', by rw [assignFields, hencoded]; exact houtput'⟩
    | some encoded =>
      obtain ⟨output', houtput'⟩ := assignFields_ok long fields (output.assign key encoded) h.2
      exact ⟨output', by rw [assignFields, hencoded]; exact houtput'⟩

end

structure Stored (long : LongPackage) (v : TlValue) (json : UpdateJsonValue) : Prop where
  portable : Portable json
  read : fromJsonValue long json = .ok (kept v)

/-- What writing gives: nothing for `undefined`, and what can be stored for every other value. -/
def Written (long : LongPackage) (v : TlValue) : Option UpdateJsonValue → Prop
  | none      => v = .undefined
  | some json => v ≠ .undefined ∧ Stored long v json

theorem keptItems_cons {item : TlValue} (h : item ≠ .undefined) (items : List TlValue) :
    keptItems (item :: items) = kept item :: keptItems items := by
  cases item with
  | undefined => exact absurd rfl h
  | _         => rfl

theorem keptFields_cons {child : TlValue} (h : child ≠ .undefined) (key : JsString) (fields : List (JsString × TlValue)) :
    keptFields ((key, child) :: fields) = (key, kept child) :: keptFields fields := by
  cases child with
  | undefined => exact absurd rfl h
  | _         => rfl

def reservedKeys : List JsString := [typeKey, protoKey]

mutual

theorem written_toJsonValue (hlong : long.Documented) : ∀ (v : TlValue) (r : Option UpdateJsonValue),
    Keyed reservedKeys v → toJsonValue long v = .ok r → Written long v r
  | .undefined,     _, _, rfl => rfl
  | .null,          _, _, rfl => ⟨fun h => (by cases h), trivial, rfl⟩
  | .boolean _,     _, _, rfl => ⟨fun h => (by cases h), trivial, rfl⟩
  | .string _,      _, _, rfl => ⟨fun h => (by cases h), trivial, rfl⟩
  | .number value,  r, _, hr  => by
    rw [toJsonValue] at hr
    split at hr
    · rename_i hfinite
      cases hr
      exact ⟨fun h => (by cases h), hfinite, rfl⟩
    · cases hr
  | .bigint n,      _, _, rfl => by
    refine ⟨fun h => (by cases h), ⟨nodup_tagKeys.2, trivial, trivial, trivial⟩, ?_⟩
    rw [fromJsonValue, decodeTagged_bigint]
    rfl
  | .long l,        _, _, rfl => by
    refine ⟨fun h => (by cases h), ⟨nodup_tagKeys.1, trivial, trivial, trivial, trivial⟩, ?_⟩
    rw [fromJsonValue, decodeTagged_long hlong]
    rfl
  | .bytes bytes,   _, _, rfl => by
    refine ⟨fun h => (by cases h), ⟨nodup_tagKeys.2, trivial, trivial, trivial⟩, ?_⟩
    rw [fromJsonValue, decodeTagged_bytes]
    rfl
  | .array items,   r, h, hr  => by
    rw [toJsonValue, Results.bind_ok] at hr
    obtain ⟨encoded, hencoded, heq⟩ := hr
    cases heq
    obtain ⟨hportable, hread⟩ := written_toJsonItems hlong items encoded h hencoded
    refine ⟨fun h => (by cases h), hportable, ?_⟩
    rw [fromJsonValue, hread]
    rfl
  | .object fields, r, h, hr  => by
    rw [toJsonValue, Results.bind_ok] at hr
    obtain ⟨output, houtput, heq⟩ := hr
    cases heq
    obtain ⟨⟨hnodup, hreserved⟩, hfields⟩ := h
    obtain ⟨encoded, rfl, hkeys, hportable, hread⟩ :=
      written_assignFields hlong fields {} output (hreserved protoKey (by decide)) hfields houtput
    have htype : typeKey ∉ encoded.map Prod.fst := fun hmem => hreserved typeKey (by decide) (hkeys.subset hmem)
    refine ⟨fun h => (by cases h), ⟨hnodup.sublist hkeys, hportable⟩, ?_⟩
    show fromJsonValue long (.object encoded) = _
    rw [fromJsonValue, decodeTagged_none htype, hread]
    rfl
  | .other _,       _, _, hr  => by cases hr

theorem written_toJsonItems (hlong : long.Documented) : ∀ (items : List TlValue) (encoded : List UpdateJsonValue),
    KeyedItems reservedKeys items → toJsonItems long items = .ok encoded →
      PortableItems encoded ∧ fromJsonItems long encoded = .ok (keptItems items)
  | [],            _,       _, rfl => ⟨trivial, rfl⟩
  | item :: items, encoded, h, hr  => by
    rw [toJsonItems, Results.bind_ok] at hr
    obtain ⟨first, hfirst, hr⟩ := hr
    obtain ⟨rest, hrest, heq⟩ := Results.bind_ok.1 hr
    cases heq
    have hwritten := written_toJsonValue hlong item first h.1 hfirst
    obtain ⟨hportable, hread⟩ := written_toJsonItems hlong items rest h.2 hrest
    cases first with
    | none      =>
      cases hwritten
      refine ⟨⟨trivial, hportable⟩, ?_⟩
      rw [fromJsonItems, hread]
      rfl
    | some json =>
      obtain ⟨hdefined, hstored⟩ := hwritten
      refine ⟨⟨hstored.portable, hportable⟩, ?_⟩
      rw [Option.getD_some, fromJsonItems, hstored.read, hread, keptItems_cons hdefined]
      rfl

theorem written_assignFields (hlong : long.Documented) : ∀ (fields : List (JsString × TlValue)) (output output' : JsObject),
    protoKey ∉ fields.map Prod.fst → KeyedFields reservedKeys fields → assignFields long output fields = .ok output' →
      ∃ encoded, output' = { output with fields := output.fields ++ encoded } ∧
        (encoded.map Prod.fst).Sublist (fields.map Prod.fst) ∧ PortableFields encoded ∧
        fromJsonFields long encoded = .ok (keptFields fields)
  | [],                     output, _,       _,      _, rfl => ⟨[], by rw [append_nil], List.Sublist.refl _, trivial, rfl⟩
  | (key, child) :: fields, output, output', hproto, h, hr  => by
    rw [assignFields, Results.bind_ok] at hr
    obtain ⟨first, hfirst, hr⟩ := hr
    have hwritten := written_toJsonValue hlong child first h.1 hfirst
    have hproto' : protoKey ∉ fields.map Prod.fst := fun hmem => hproto (mem_cons_of_mem _ hmem)
    cases first with
    | none      =>
      cases hwritten
      obtain ⟨encoded, houtput, hkeys, hportable, hread⟩ := written_assignFields hlong fields output output' hproto' h.2 hr
      exact ⟨encoded, houtput, hkeys.cons key, hportable, hread⟩
    | some json =>
      obtain ⟨hdefined, hstored⟩ := hwritten
      have hkey : key ≠ protoKey := fun heq => hproto (heq ▸ mem_cons_self)
      have hassign : output.assign key json = { output with fields := output.fields ++ [(key, json)] } := if_neg hkey
      obtain ⟨encoded, houtput, hkeys, hportable, hread⟩ :=
        written_assignFields hlong fields (output.assign key json) output' hproto' h.2 hr
      refine ⟨(key, json) :: encoded, ?_, hkeys.cons_cons key, ⟨hstored.portable, hportable⟩, ?_⟩
      · rw [houtput, hassign, append_assoc, singleton_append]
      · rw [fromJsonFields, hstored.read, hread, keptFields_cons hdefined]
        rfl

end

end

/-- **A stored update is read back**, and only what is undefined is lost; whatever is stored is portable. -/
theorem updateFromJson_updateToJson (long : LongPackage) (hlong : long.Documented) (v : TlValue)
    (hkeys : Keyed reservedKeys v) :
    (Representable v → v ≠ .undefined →
      ∃ json, updateToJson long v = .ok (some json) ∧ updateFromJson long json = .ok (kept v)) ∧
    ∀ json, updateToJson long v = .ok (some json) → Portable json := by
  refine ⟨fun hv hdefined => ?_, fun json hr => (written_toJsonValue hlong v (some json) hkeys hr).2.portable⟩
  obtain ⟨r, hr⟩ := toJsonValue_ok long v hv
  have hwritten := written_toJsonValue hlong v r hkeys hr
  cases r with
  | none      => exact absurd hwritten hdefined
  | some json => exact ⟨json, hr, hwritten.2.read⟩

def longPackage : LongPackage where
  toString   := fun l => Decimals.ofInt l.toInt
  fromString := fun s unsigned => (Decimals.toInt s).map (fun n => Long.ofInt n unsigned)

theorem longPackage_documented : longPackage.Documented where
  writes := fun _ => rfl
  reads  := fun n unsigned _ => by
    show (Decimals.toInt (Decimals.ofInt n)).map (fun n => Long.ofInt n unsigned) = _
    rw [Decimals.toInt_ofInt, Option.map_some]

theorem updateFromJson_updateToJson_long :
    ∃ json, updateToJson longPackage (.object [(valueKey, .array [.undefined, .long ⟨0xFFFFFFFFFFFFFFFF, true⟩]),
        (unsignedKey, .undefined)]) = .ok (some json) ∧
      updateFromJson longPackage json = .ok (.object [(valueKey, .array [.null, .long ⟨0xFFFFFFFFFFFFFFFF, true⟩])]) :=
  (updateFromJson_updateToJson longPackage longPackage_documented (.object [(valueKey, .array [.undefined,
    .long ⟨0xFFFFFFFFFFFFFFFF, true⟩]), (unsignedKey, .undefined)])
    ⟨⟨nodup_tagKeys.1.tail, by simp only [map_cons, map_nil]; decide⟩, ⟨trivial, trivial, trivial⟩, trivial, trivial⟩).1
    ⟨⟨trivial, trivial, trivial⟩, trivial, trivial⟩ (fun h => (by cases h))

/-- A field `__proto__` becomes the prototype, and a bigint in it is what is read back. -/
theorem read_proto :
    Representable (.object [(protoKey, .bigint 5)]) ∧ Keyed [typeKey] (.object [(protoKey, .bigint 5)]) ∧
      ∃ json, updateToJson longPackage (.object [(protoKey, .bigint 5)]) = .ok (some json) ∧
        updateFromJson longPackage json = .ok (.bigint 5) ∧ ¬ Portable json :=
  ⟨⟨trivial, trivial⟩, ⟨⟨pairwise_singleton _ _, by simp only [map_cons, map_nil]; decide⟩, trivial, trivial⟩,
    _, rfl, rfl, id⟩

end UpdateJson
end Crossgram
