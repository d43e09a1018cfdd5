import SlotQuery.Fleet.Record
import SlotQuery.Json.Basic
import SlotQuery.Query.Condition

/-!
# Records as JSON

How records are written as JSON and read back. A record is an object; keys it does not know are
passed over, a key it knows may stand only once, and a missing or null field has no value. The list
of its fields in order, with trailing ones left out, is a record as well. In a map the last of equal
keys counts.
-/

namespace SlotQuery

namespace Json

/-- A truth value. -/
def asBool? : Json → Option Bool
  | bool b => some b
  | _ => none

/-- An integer of 64 bits. -/
def asInt64? : Json → Option Int64
  | int n =>
    if Int64.minValue.toInt ≤ n && n ≤ Int64.maxValue.toInt then some (Int64.ofInt n) else none
  | _ => none

/-- A text. -/
def asText? : Json → Option String
  | text s => some s
  | _ => none

/-- A list of items that are all of one kind. -/
def asList? {α : Type} (item? : Json → Option α) : Json → Option (List α)
  | list js => js.mapM item?
  | _ => none

/-- A map whose values are all of one kind. -/
def asMap? {α : Type} (value? : Json → Option α) : Json → Option (TextMap α)
  | object members =>
    (members.mapM fun m => (value? m.2).map fun v => (m.1, v)).map TextMap.ofList
  | _ => none

/-- An optional field: nothing when missing or null. -/
def asOption? {α : Type} (decode? : Json → Option α) : Option Json → Option (Option α)
  | none | some null => some none
  | some j => (decode? j).map some

/-- The value of the field among the members of an object, if there is at most one. -/
def field? (members : List (String × Json)) (key : String) : Option (Option Json) :=
  match members.filter (·.1 == key) with
  | [] => some none
  | [m] => some (some m.2)
  | _ => none

/-- The values of the named fields of a record. -/
def fields? (keys : List String) : Json → Option (List (Option Json))
  | object members => keys.mapM (field? members)
  | list items =>
    if items.length ≤ keys.length then
      some (items.map some ++ List.replicate (keys.length - items.length) none)
    else none
  | _ => none

/-- A list as JSON. -/
def ofList {α : Type} (encode : α → Json) (as : List α) : Json := list (as.map encode)

/-- A map as JSON. -/
def ofMap {α : Type} (encode : α → Json) (m : TextMap α) : Json :=
  object (m.entries.map fun e => (e.1, encode e.2))

/-- An integer of 64 bits as JSON. -/
def ofInt64 (n : Int64) : Json := int n.toInt

end Json

open Json

namespace TagValue

/-- The value as JSON. -/
def toJson : TagValue → Json
  | number n => ofInt64 n
  | flag b => .bool b

/-- A number or a truth value. -/
def ofJson? (j : Json) : Option TagValue :=
  match j with
  | .bool b => some (flag b)
  | j => (asInt64? j).map number

end TagValue

namespace MemberConfig

/-- The keys of the fields in order. -/
def keys : List String := ["authorized", "ipAssignments", "capabilities", "tags", "identity"]

/-- The pair of a tag's number and its value. -/
def tagOfJson? : Json → Option (Int64 × TagValue)
  | .list [id, value] => do return (← asInt64? id, ← TagValue.ofJson? value)
  | _ => none

/-- The settings as JSON. -/
def toJson (c : MemberConfig) : Json :=
  .object [
    ("authorized", ofOption .bool c.authorized),
    ("ipAssignments", ofOption (Json.ofList .text) c.ipAssignments),
    ("capabilities", ofOption (Json.ofList ofInt64) c.capabilities),
    ("tags", ofOption (Json.ofList fun t => .list [ofInt64 t.1, t.2.toJson]) c.tags),
    ("identity", ofOption .text c.identity)]

/-- The settings that the JSON value holds. -/
def ofJson? (j : Json) : Option MemberConfig := do
  match ← fields? keys j with
  | [authorized, ipAssignments, capabilities, tags, identity] =>
    return {
      authorized := ← asOption? asBool? authorized
      ipAssignments := ← asOption? (asList? asText?) ipAssignments
      capabilities := ← asOption? (asList? asInt64?) capabilities
      tags := ← asOption? (asList? tagOfJson?) tags
      identity := ← asOption? asText? identity }
  | _ => none

end MemberConfig

namespace MemberRecord

/-- The keys of the fields in order. -/
def keys : List String := ["nodeId", "name", "description", "clock", "lastOnline", "config"]

/-- The record as JSON. -/
def toJson (m : MemberRecord) : Json :=
  .object [
    ("nodeId", ofOption .text m.nodeId),
    ("name", ofOption .text m.name),
    ("description", ofOption .text m.description),
    ("clock", ofOption ofInt64 m.clock),
    ("lastOnline", ofOption ofInt64 m.lastOnline),
    ("config", ofOption MemberConfig.toJson m.config)]

/-- The record that the JSON value holds. -/
def ofJson? (j : Json) : Option MemberRecord := do
  match ← fields? keys j with
  | [nodeId, name, description, clock, lastOnline, config] =>
    return {
      nodeId := ← asOption? asText? nodeId
      name := ← asOption? asText? name
      description := ← asOption? asText? description
      clock := ← asOption? asInt64? clock
      lastOnline := ← asOption? asInt64? lastOnline
      config := ← asOption? MemberConfig.ofJson? config }
  | _ => none

/-- The member list that the JSON value holds. -/
def listOfJson? : Json → Option (List MemberRecord) := asList? ofJson?

end MemberRecord

namespace TagDefinition

/-- The keys of the fields in order. -/
def keys : List String := ["id", "enums"]

/-- The definition as JSON. -/
def toJson (d : TagDefinition) : Json :=
  .object [("id", ofInt64 d.id), ("enums", ofOption (ofMap ofInt64) d.enums)]

/-- The definition that the JSON value holds. A missing number is zero; a null one is refused. -/
def ofJson? (j : Json) : Option TagDefinition := do
  match ← fields? keys j with
  | [id, enums] =>
    return {
      id := ← match id with
        | none => some 0
        | some j => asInt64? j
      enums := ← asOption? (asMap? asInt64?) enums }
  | _ => none

end TagDefinition

namespace NetworkConfig

/-- The settings as JSON. -/
def toJson (c : NetworkConfig) : Json := .object [("name", ofOption .text c.name)]

/-- The settings that the JSON value holds. -/
def ofJson? (j : Json) : Option NetworkConfig := do
  match ← fields? ["name"] j with
  | [name] => return { name := ← asOption? asText? name }
  | _ => none

end NetworkConfig

namespace NetworkInfo

/-- The keys of the fields in order. -/
def keys : List String := ["capabilitiesByName", "tagsByName", "config"]

/-- The record as JSON. -/
def toJson (n : NetworkInfo) : Json :=
  .object [
    ("capabilitiesByName", ofOption (ofMap ofInt64) n.capabilitiesByName),
    ("tagsByName", ofOption (ofMap TagDefinition.toJson) n.tagsByName),
    ("config", ofOption NetworkConfig.toJson n.config)]

/-- The record that the JSON value holds. -/
def ofJson? (j : Json) : Option NetworkInfo := do
  match ← fields? keys j with
  | [capabilitiesByName, tagsByName, config] =>
    return {
      capabilitiesByName := ← asOption? (asMap? asInt64?) capabilitiesByName
      tagsByName := ← asOption? (asMap? TagDefinition.ofJson?) tagsByName
      config := ← asOption? NetworkConfig.ofJson? config }
  | _ => none

end NetworkInfo

namespace Attributes

/-- The attributes as JSON. -/
def toJson (a : Attributes) : Json := ofMap .text a

/-- The attributes that the JSON value holds. -/
def ofJson? : Json → Option Attributes := asMap? asText?

end Attributes

end SlotQuery
