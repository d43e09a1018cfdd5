import SlotQuery.Fleet.Address
import SlotQuery.Fleet.Record
import SlotQuery.Query.Condition

/-!
# Members as candidates

Selectors see a member as a flat map of texts. Besides the base fields, every tag of the network
adds four: its value and the name of its value, each under the tag's name and under its number.
-/

namespace SlotQuery

/-- The fields that every candidate carries. -/
def baseFields : List String :=
  ["name", "nodeId", "description", "capabilities", "identity", "address", "IPv4Address",
    "IPv6Address"]

/-- The field of a tag's value. -/
def tagField (tag : String) : String := "tag:" ++ tag

/-- The field of the name of a tag's value. -/
def tagEnumField (tag : String) : String := "tagEnum:" ++ tag

/-- A tag's number as it stands in a field name. -/
def idText (id : Int64) : String := toString id.toInt

/-- The fields of a tag. -/
def tagFields (name : String) (id : Int64) : List String :=
  [tagField name, tagField (idText id), tagEnumField name, tagEnumField (idText id)]

/-- The fields that a query over the network may refer to. -/
def NetworkInfo.knownFields (network : NetworkInfo) : FieldSet :=
  FieldSet.ofList (baseFields ++ network.tags.flatMap fun (name, tag) => tagFields name tag.id)

namespace MemberRecord

/-- Every capability followed by the network's names for it, with spaces between. -/
def capabilityText (member : MemberRecord) (network : NetworkInfo) : String :=
  String.intercalate " " (member.capabilities.flatMap fun id =>
    idText id :: (network.capabilities.filter (·.2 == id)).map (·.1))

/-- The fields that do not depend on tags. -/
def baseAttributes (member : MemberRecord) (network : NetworkInfo) (version : IpVersion) :
    Attributes :=
  let assigned := member.ipAssignments
  TextMap.ofList [
    ("nodeId", member.nodeId.getD ""),
    ("name", member.name.getD ""),
    ("description", member.description.getD ""),
    ("identity", (member.config.bind (·.identity)).getD ""),
    ("capabilities", member.capabilityText network),
    ("address", Address.select assigned version),
    ("IPv4Address", Address.select assigned .v4),
    ("IPv6Address", Address.select assigned .v6)]

/-- The name of a tag's value, the first one in name order. -/
def enumLabel? (tag : TagDefinition) (value : TagValue) : Option String :=
  (((tag.enums.map (·.entries)).getD []).find? fun e => some e.2 == value.number?).map (·.1)

/-- The attributes with the fields of one tag of the member. The tag's name is the first one in name
order that the network has for its number. -/
def addTag (network : NetworkInfo) (a : Attributes) (tag : Int64 × TagValue) : Attributes :=
  let (id, value) := tag
  if value.isSet then
    let a := a.insert (tagField (idText id)) value.render
    match network.tags.find? (·.2.id == id) with
    | none => a
    | some (name, definition) =>
      let a := a.insert (tagField name) value.render
      match enumLabel? definition value with
      | none => a
      | some label =>
        (a.insert (tagEnumField (idText id)) label).insert (tagEnumField name) label
  else a

/-- The attributes of the member in the network. -/
def attributes (member : MemberRecord) (network : NetworkInfo) (version : IpVersion) : Attributes :=
  member.tags.foldl (addTag network) (member.baseAttributes network version)

end MemberRecord

/-- The address that a candidate is reported with, empty if it has none. -/
def Attributes.address (a : Attributes) : String := (a.get? "address").getD ""

end SlotQuery
