import SlotQuery.Text.Blank

/-!
# Address versions

Which family of addresses a node is reported with, and whether the other family may stand in.
-/

namespace SlotQuery

/-- A family of addresses. -/
inductive AddressFamily where
  | v4
  | v6
deriving DecidableEq, Repr

/-- The family that is asked for. -/
structure IpVersion where
  family : AddressFamily
  /-- An address of the other family will do where there is none of this one. -/
  fallback : Bool
deriving DecidableEq, Repr

namespace IpVersion

/-- Addresses of the older family only. -/
def v4 : IpVersion := ⟨.v4, false⟩

/-- Addresses of the newer family only. -/
def v6 : IpVersion := ⟨.v6, false⟩

/-- The version that a text spells: `4` or `6`, with a `?` behind it for a fallback. -/
def parse? (text : String) : Option IpVersion :=
  match (Text.trim text).toList with
  | ['4'] => some ⟨.v4, false⟩
  | ['6'] => some ⟨.v6, false⟩
  | ['4', '?'] => some ⟨.v4, true⟩
  | ['6', '?'] => some ⟨.v6, true⟩
  | _ => none

/-- The text of the version. -/
def render (v : IpVersion) : String :=
  let digit := match v.family with
    | .v4 => "4"
    | .v6 => "6"
  digit ++ if v.fallback then "?" else ""

end IpVersion

end SlotQuery
