import AIService.Basic
import AIService.Data.SortedMap
import Mathlib.Data.Rat.Defs

/-!
# JSON values

The values of `nlohmann::json`.  Objects list their members in the order of the keys, as
its `std::map` does.  The text form belongs to the library: `JsonCodec` takes `dump` and
`json::parse` as parameters, and `JsonCodec.Lawful` is what the sources rely on.
-/

namespace AIService

/-- A finite double is a rational number. -/
inductive Json
  | null
  | bool (value : Bool)
  | int (value : Int)
  | float (value : ℚ)
  | str (value : Bytes)
  | arr (items : List Json)
  | obj (fields : List (Bytes × Json))
deriving Inhabited

namespace Json

/-- `at(key)`; `none` is an exception. -/
def field? (key : Bytes) : Json → Option Json
  | .obj fields => SortedMap.lookup key fields
  | _ => none

/-- `(*this)[key] = v`; `none` is an exception. -/
def setField? (j : Json) (key : Bytes) (v : Json) : Option Json :=
  match j with
  | .obj fields => some (.obj (SortedMap.place key v fields))
  | .null => some (.obj [(key, v)])
  | _ => none

/-- The object of an initialiser list with distinct keys. -/
def object (fields : List (Bytes × Json)) : Json :=
  .obj (fields.foldr (fun (key, v) rest => SortedMap.place key v rest) [])

/-- `get<std::string>()`. -/
def string? : Json → Option Bytes
  | .str s => some s
  | _ => none

end Json

/-- `dump()` and `json::parse`; `none` is an exception. -/
structure JsonCodec where
  dump : Json → Option Bytes
  parse : Bytes → Option Json

/-- Reading back what was written gives the same value. -/
structure JsonCodec.Lawful (codec : JsonCodec) : Prop where
  parse_dump {j : Json} {text : Bytes} : codec.dump j = some text → codec.parse text = some j

end AIService
