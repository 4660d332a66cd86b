/-
JSON values, as `serde_json` has them.

`serde_json` is not part of the repository; `SerdeJson` is its reader and its
writer.
-/
import Mathlib

namespace Nipworker

/-- `serde_json::Value`. -/
inductive Json
  | null
  | bool (b : Bool)
  | number (text : String)
  | string (s : String)
  | array (items : List Json)
  | object (fields : List (String × Json))

def Json.asStr : Json → Option String
  | .string s => some s
  | _ => none

/-- `Value::get` with a key: `none` on anything but an object. -/
def Json.get (key : String) : Json → Option Json
  | .object fields => (fields.find? fun field => field.1 = key).map Prod.snd
  | _ => none

/-- `serde_json::from_str` and `serde_json::to_string` on values. -/
structure SerdeJson where
  fromStr : String → Option Json
  toText : Json → String

end Nipworker
