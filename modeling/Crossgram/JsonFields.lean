import Crossgram.Lib.Maps
import Crossgram.StableJson
/-!
# JsonFields — objects as maps (packages/bridge/src/stable-json.ts)

What stands under a key after a field is set, or after one object is spread over another, is what the map of the
fields holds.
-/
namespace Crossgram

namespace Json

@[simp] theorem property_nil (key : String) : property (.obj []) key = none := rfl

@[simp] theorem property_setField (fields : JsonObject) (key : String) (value : Json) (key' : String) :
    property (.obj (setField fields key value)) key' = if key' = key then some value else property (.obj fields) key' :=
  Maps.get_set fields key value key'

/-- **What stands under a key of a spread**: what the second object says, if it names the key. -/
theorem property_spread (fields overrides : JsonObject) (key : String) :
    property (.obj (spread fields overrides)) key =
      (property (.obj (spread [] overrides)) key).or (property (.obj fields) key) := by
  have h : ∀ own : JsonObject, property (.obj (spread own overrides)) key =
      (Maps.get overrides.reverse key).or (property (.obj own) key) := fun own => Maps.get_foldl_set overrides own key
  rw [h fields, h [], property_nil, Option.or_none]

theorem property_filter (p : String → Bool) (fields : JsonObject) (key : String) :
    property (.obj (fields.filter (fun field => p field.1))) key =
      if p key = true then property (.obj fields) key else none :=
  Maps.get_filter_keys p key fields

end Json

end Crossgram
