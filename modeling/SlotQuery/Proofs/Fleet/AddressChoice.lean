import Mathlib.Data.List.Basic
import SlotQuery.Fleet.Address

/-!
# The address that is reported

What `Address.select` picks from a list of assignments, against the rule that the first entry with
something in it counts (`choice?`). An entry with nothing in it has no dot, so it passes for an address of
the newer family. If it is the first one of that family it hides those behind it (`Hidden`), and the report
is empty although there is an address to report. Main statement: `select_eq_choice_iff`.
-/

namespace SlotQuery

/-- The family that stands in for this one. -/
def AddressFamily.other : AddressFamily → AddressFamily
  | .v4 => .v6
  | .v6 => .v4

namespace Address

variable {assigned : List String} {version : IpVersion} {family : AddressFamily} {address : String}

/-- The first entry, as it is reported, that has something in it and is of the family. -/
def firstOf? (family : AddressFamily) (assigned : List String) : Option String :=
  (assigned.map normal).find? fun address => familyOf address = family ∧ address ≠ ""

/-- The address that the version asks for: one of its family or else, with a fallback, one of the other. -/
def choice? (assigned : List String) (version : IpVersion) : Option String :=
  (firstOf? version.family assigned).or
    (if version.fallback then firstOf? version.family.other assigned else none)

/-- The first entry, as it is reported, that counts as one of the family. -/
def headOf? (family : AddressFamily) (assigned : List String) : Option String :=
  (assigned.map normal).find? (familyOf · = family)

/-- There is an address to report, but the first entry of the newer family has nothing in it, and it is
looked at before any address is found. -/
structure Hidden (assigned : List String) (version : IpVersion) : Prop where
  blank_first : headOf? .v6 assigned = some ""
  exists_choice : choice? assigned version ≠ none
  older_none : version.family = .v4 → firstOf? .v4 assigned = none

theorem familyOf_ne_iff : familyOf address ≠ family ↔ familyOf address = family.other := by
  cases family <;> cases familyOf address <;> simp [AddressFamily.other]

theorem select_eq : select assigned version =
    ((headOf? version.family assigned).or
      (if version.fallback then headOf? version.family.other assigned else none)).getD "" := by
  simp only [select, List.head?_filter, familyOf_ne_iff, headOf?]
  split
  · rfl
  · rw [Option.or_none]

/-- The first entry of a family is the first one with something in it, unless it has nothing in it. -/
theorem firstOf?_eq (h : headOf? family assigned ≠ some "") :
    firstOf? family assigned = headOf? family assigned := by
  have hfirst : firstOf? family assigned =
      ((assigned.map normal).filter (familyOf · = family)).find? (· ≠ "") := by
    simp [firstOf?, List.find?_filter]
  rw [headOf?, ← List.head?_filter] at h ⊢
  rw [hfirst]
  cases hfamily : (assigned.map normal).filter (familyOf · = family) with
  | nil => rfl
  | cons address addresses =>
    have hne : address ≠ "" := by
      intro heq
      apply h
      rw [hfamily, heq, List.head?_cons]
    apply List.find?_cons_of_pos
    exact decide_eq_true hne

/-- An address of the older family has a dot in it. -/
theorem headOf?_v4_ne : headOf? .v4 assigned ≠ some "" := by
  intro h
  have hfamily := List.find?_some h
  simp [familyOf] at hfamily

theorem select_of_headOf?_ne (h : headOf? .v6 assigned ≠ some "") :
    select assigned version = (choice? assigned version).getD "" := by
  have hfirst : ∀ family, firstOf? family assigned = headOf? family assigned := by
    intro family
    cases family with
    | v4 => exact firstOf?_eq headOf?_v4_ne
    | v6 => exact firstOf?_eq h
  rw [select_eq, choice?, hfirst, hfirst]

/-- Behind a first entry with nothing in it only an address of the older family is found, and only if that
is asked for. -/
theorem select_of_headOf?_eq (h : headOf? .v6 assigned = some "") :
    select assigned version =
      if version.family = .v4 then (firstOf? .v4 assigned).getD "" else "" := by
  have holder : firstOf? .v4 assigned = headOf? .v4 assigned := firstOf?_eq headOf?_v4_ne
  obtain ⟨family, fallback⟩ := version
  rw [select_eq, holder]
  cases family with
  | v4 => cases headOf? .v4 assigned <;> cases fallback <;> simp [AddressFamily.other, h]
  | v6 => simp [h]

theorem firstOf?_ne : firstOf? family assigned ≠ some "" := by
  intro h
  have hne := List.find?_some h
  simp at hne

theorem choice?_ne : choice? assigned version ≠ some "" := by
  intro h
  rw [choice?, Option.or_eq_some_iff] at h
  rcases h with h | ⟨-, h⟩
  · exact firstOf?_ne h
  · split at h
    · exact firstOf?_ne h
    · cases h

theorem Hidden.select_eq (h : Hidden assigned version) : select assigned version = "" := by
  rw [select_of_headOf?_eq h.blank_first]
  split
  · next hfamily => rw [h.older_none hfamily, Option.getD_none]
  · rfl

/-! ## Main statement -/

/-- **The reported address.** It is the one that the version asks for, the first entry with something in it
of its family or else, with a fallback, of the other, and empty if there is none; but for a list whose
addresses are hidden behind an entry with nothing in it, for which the report is empty as well. -/
theorem select_eq_choice_iff (assigned : List String) (version : IpVersion) :
    (select assigned version = (choice? assigned version).getD "" ↔ ¬ Hidden assigned version) ∧
      (Hidden assigned version → select assigned version = "") := by
  refine ⟨⟨fun heq hhidden => ?_, fun hshown => ?_⟩, Hidden.select_eq⟩
  · -- what is asked for is never empty, what is reported is
    obtain ⟨address, haddress⟩ := Option.ne_none_iff_exists'.1 hhidden.exists_choice
    rw [hhidden.select_eq, haddress, Option.getD_some] at heq
    exact choice?_ne (heq ▸ haddress)
  · by_cases hblank : headOf? .v6 assigned = some ""
    · by_cases hchoice : choice? assigned version = none
      · rw [select_of_headOf?_eq hblank, hchoice]
        rw [choice?, Option.or_eq_none_iff] at hchoice
        split
        · next hfamily => rw [← hfamily, hchoice.1]
        · rfl
      · -- something is found in front of the blank entry: an address of the older family
        have hfound : version.family = .v4 ∧ firstOf? .v4 assigned ≠ none := by
          by_contra hnot
          exact hshown ⟨hblank, hchoice, fun hfamily => by_contra fun h => hnot ⟨hfamily, h⟩⟩
        obtain ⟨hfamily, hfirst⟩ := hfound
        obtain ⟨address, haddress⟩ := Option.ne_none_iff_exists'.1 hfirst
        rw [select_of_headOf?_eq hblank, if_pos hfamily, choice?, hfamily, haddress, Option.some_or]
    · exact select_of_headOf?_ne hblank

/-- A blank entry with a prefix length hides the address of the newer family and keeps the one of the older
family from standing in for it. The older family itself is found. -/
theorem select_eq_choice_iff_prefix_only :
    select [" /64", "FE80::1/64", "10.0.0.1"] ⟨.v6, true⟩ = "" ∧
      select [" /64", "FE80::1/64", "10.0.0.1"] ⟨.v4, true⟩ = "10.0.0.1" := by
  have hhidden : Hidden [" /64", "FE80::1/64", "10.0.0.1"] ⟨.v6, true⟩ :=
    ⟨by decide +kernel, by decide +kernel, by intro h; cases h⟩
  have hshown : ¬ Hidden [" /64", "FE80::1/64", "10.0.0.1"] ⟨.v4, true⟩ := by
    intro h
    have hnone := h.older_none rfl
    revert hnone
    decide +kernel
  have hchoice : choice? [" /64", "FE80::1/64", "10.0.0.1"] ⟨.v4, true⟩ = some "10.0.0.1" := by
    decide +kernel
  obtain ⟨hiff, -⟩ := select_eq_choice_iff [" /64", "FE80::1/64", "10.0.0.1"] ⟨.v4, true⟩
  refine ⟨(select_eq_choice_iff _ _).2 hhidden, ?_⟩
  rw [hiff.2 hshown, hchoice, Option.getD_some]

/-- An entry with nothing in it hides the address behind it. -/
theorem select_blank_entry :
    select ["", "fe80::1"] .v6 = "" ∧ choice? ["", "fe80::1"] .v6 = some "fe80::1" := by
  decide +kernel

end Address

end SlotQuery
