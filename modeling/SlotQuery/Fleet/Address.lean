import SlotQuery.Fleet.IpVersion
import SlotQuery.Text.Case

/-!
# Addresses

Addresses are free text: they may carry a prefix length behind a slash, be written in either case or
leave out zero groups by a double colon. Comparison spells out all groups; picking an address looks
only at its family, which is the older one exactly when the text holds a dot.
-/

namespace SlotQuery.Address

open Text

/-- The groups between colons. -/
def groups (cs : List Char) : List (List Char) := cs.splitOn ':'

/-- The text in front of the first double colon, and the text behind it if there is one. -/
def halves : List Char → List Char × Option (List Char)
  | [] => ([], none)
  | ':' :: ':' :: cs => ([], some cs)
  | c :: cs =>
    let (front, back) := halves cs
    (c :: front, back)

/-- The last four characters of a group in lower case, with zeros in front. -/
def padGroup (group : List Char) : List Char :=
  let g := lowerChars (trimBoth group)
  (['0', '0', '0', '0'] ++ g).drop g.length

/-- The groups of an address, those left out by the first double colon included. -/
def allGroups (cs : List Char) : List (List Char) :=
  let (front, back) := halves cs
  let leading := groups front
  let trailing := (back.map groups).getD []
  let omitted := 8 - (leading.length + trailing.length)
  leading ++ List.replicate omitted ['0', '0', '0', '0'] ++ trailing

/-- The address with every group spelt out. A text without a colon is left as it is. -/
def expandChars (cs : List Char) : List Char :=
  if cs.contains ':' then [':'].intercalate ((allGroups cs).map padGroup) else cs

/-- The address with every group spelt out. -/
def expand (address : String) : String := String.ofList (expandChars address.toList)

/-- The two texts are the same address, whatever their case, outer white space and compression. -/
def same (a b : String) : Bool :=
  let a := lowerChars (trimBoth a.toList)
  let b := lowerChars (trimBoth b.toList)
  a == b || expandChars a == expandChars b

/-- The address without its prefix length. -/
def bare (address : String) : String :=
  String.ofList (address.toList.takeWhile (· != '/'))

/-- The form in which an address is reported. -/
def normal (address : String) : String := lower (trim (bare address))

/-- The family of a text. -/
def familyOf (address : String) : AddressFamily :=
  if address.toList.contains '.' then .v4 else .v6

/-- The address to report from a list of assignments, empty if there is none to report. -/
def select (assigned : List String) (version : IpVersion) : String :=
  let normals := assigned.map normal
  let preferred := normals.filter (familyOf · = version.family)
  let others := normals.filter (familyOf · ≠ version.family)
  let picked := if version.fallback then preferred.head?.or others.head? else preferred.head?
  picked.getD ""

/-- The assignments hold every requested address. With nothing requested, any address of the version
will do. -/
def holdsAll (assigned requested : List String) (version : IpVersion) : Bool :=
  let assigned := assigned.map fun a => trim (bare a)
  if requested.isEmpty then select assigned version != ""
  else requested.all fun wanted => assigned.any fun a => same a wanted

/-- The number of requested addresses that the assignments do not hold. -/
def missing (assigned requested : List String) : Nat :=
  requested.countP fun wanted => !assigned.any fun a => same (bare a) wanted

variable {assigned requested : List String} {version : IpVersion}

theorem same_trim (a b : String) : same (trim a) b = same a b := by
  simp only [same, trim, String.toList_ofList, trimBoth_trimBoth]

theorem any_same_trim (assigned : List String) (wanted : String) :
    ((assigned.map fun a => trim (bare a)).any fun a => same a wanted) =
      assigned.any fun a => same (bare a) wanted := by
  simp only [List.any_map, Function.comp_def, same_trim]

/-- One address is held when one of the assigned addresses without its prefix length is the same. -/
theorem holdsAll_singleton (assigned : List String) (wanted : String) (version : IpVersion) :
    holdsAll assigned [wanted] version = assigned.any fun a => same (bare a) wanted := by
  simp only [holdsAll, List.isEmpty_cons, Bool.false_eq_true, if_false, List.all_cons, List.all_nil,
    Bool.and_true, any_same_trim]

/-- Addresses are all held when each of them is. -/
theorem holdsAll_eq_all (h : requested ≠ []) :
    holdsAll assigned requested version =
      requested.all fun wanted => holdsAll assigned [wanted] version := by
  have hempty : requested.isEmpty = false := by
    rw [List.isEmpty_eq_false_iff]
    exact h
  simp only [holdsAll_singleton]
  simp only [holdsAll, hempty, Bool.false_eq_true, if_false, any_same_trim]

end SlotQuery.Address
