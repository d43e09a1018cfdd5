import SlotQuery.TextMap

/-!
# Member and network records

Snapshots of a network as its controller reports them. Whatever the controller has not set is
missing. Identifiers, times and tag values are integers of 64 bits.
-/

namespace SlotQuery

/-- The value of a member's tag. -/
inductive TagValue where
  | number (n : Int64)
  | flag (b : Bool)
deriving DecidableEq, Repr

namespace TagValue

/-- The tag is set; only the flag `false` marks an unset one. -/
def isSet (v : TagValue) : Bool := v != flag false

/-- The number, if it is one. -/
def number? : TagValue → Option Int64
  | number n => some n
  | flag _ => none

/-- The text that selectors see. -/
def render : TagValue → String
  | number n => toString n.toInt
  | flag true => "true"
  | flag false => "false"

end TagValue

/-- The settings of a member. -/
structure MemberConfig where
  authorized : Option Bool
  ipAssignments : Option (List String)
  capabilities : Option (List Int64)
  tags : Option (List (Int64 × TagValue))
  identity : Option String
deriving DecidableEq, Repr

/-- A member of the network. -/
structure MemberRecord where
  nodeId : Option String
  name : Option String
  description : Option String
  /-- The controller's clock at the time of the snapshot, in milliseconds. -/
  clock : Option Int64
  /-- When the member was last seen, in milliseconds. -/
  lastOnline : Option Int64
  config : Option MemberConfig
deriving DecidableEq, Repr

namespace MemberRecord

/-- The member is authorized. -/
def isAuthorized (m : MemberRecord) : Bool := (m.config.bind (·.authorized)).getD false

/-- The addresses assigned to the member. -/
def ipAssignments (m : MemberRecord) : List String := (m.config.bind (·.ipAssignments)).getD []

/-- The capabilities of the member. -/
def capabilities (m : MemberRecord) : List Int64 := (m.config.bind (·.capabilities)).getD []

/-- The tags of the member. -/
def tags (m : MemberRecord) : List (Int64 × TagValue) := (m.config.bind (·.tags)).getD []

end MemberRecord

/-- A tag of the network: its number, and names for some of its values. -/
structure TagDefinition where
  id : Int64
  enums : Option (TextMap Int64)
deriving DecidableEq, Repr

/-- The settings of the network. -/
structure NetworkConfig where
  name : Option String
deriving DecidableEq, Repr

/-- The network's names for capabilities and tags. -/
structure NetworkInfo where
  capabilitiesByName : Option (TextMap Int64)
  tagsByName : Option (TextMap TagDefinition)
  config : Option NetworkConfig
deriving DecidableEq, Repr

namespace NetworkInfo

/-- The name of the network. -/
def name (n : NetworkInfo) : Option String := n.config.bind (·.name)

/-- The named capabilities in name order. -/
def capabilities (n : NetworkInfo) : List (String × Int64) :=
  (n.capabilitiesByName.map (·.entries)).getD []

/-- The tags in name order. -/
def tags (n : NetworkInfo) : List (String × TagDefinition) :=
  (n.tagsByName.map (·.entries)).getD []

end NetworkInfo

end SlotQuery
