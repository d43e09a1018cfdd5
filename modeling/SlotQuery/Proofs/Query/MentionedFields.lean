import Mathlib.Data.List.Forall2
import SlotQuery.Query.Assignment

/-!
# Fields that matter

A selector sees a candidate only through the values of the fields in its conditions, where a field that
is not there has the empty text for a value. Candidates that agree on them pass the same tests
(`Selector.accepts_congr`), and offering one in place of the other fills the same slot. Main statement:
`assign_congr`.
-/

namespace SlotQuery

/-- The candidates have the same value in each of the fields, the empty text where it is missing. -/
def Attributes.AgreeOn (a b : Attributes) (fields : List String) : Prop :=
  ∀ field ∈ fields, (a.get? field).getD "" = (b.get? field).getD ""

instance (a b : Attributes) (fields : List String) : Decidable (a.AgreeOn b fields) :=
  List.decidableBAll _ fields

/-- The fields that the conditions of the selector mention. -/
def Selector.fields (s : Selector) : List String := s.conditions.map (·.field)

variable {a b : Attributes} {selectors : List Selector} {pool pool' : List Attributes}

theorem Attributes.AgreeOn.of_append {fields more : List String} (h : a.AgreeOn b (fields ++ more)) :
    a.AgreeOn b fields ∧ a.AgreeOn b more := List.forall_mem_append.1 h

/-! ## One candidate in place of another -/

theorem Condition.accepts_congr (c : Condition) (h : a.AgreeOn b [c.field]) :
    c.accepts a = c.accepts b := by
  rw [accepts, accepts, h c.field List.mem_cons_self]

/-- Candidates that agree on the fields of a selector pass it alike. -/
theorem Selector.accepts_congr {s : Selector} (h : a.AgreeOn b s.fields) :
    s.accepts a = s.accepts b := by
  induction s with
  | condition c => exact c.accepts_congr h
  | and left right ihl ihr =>
    rw [fields, conditions, List.map_append] at h
    obtain ⟨hl, hr⟩ := h.of_append
    rw [accepts, accepts, ihl hl, ihr hr]
  | or left right ihl ihr =>
    rw [fields, conditions, List.map_append] at h
    obtain ⟨hl, hr⟩ := h.of_append
    rw [accepts, accepts, ihl hl, ihr hr]
  | not s ih => rw [accepts, accepts, ih h]

/-- A candidate that passes the same tests goes to the same slot. -/
theorem offer_congr (h : ∀ s ∈ selectors, s.accepts a = s.accepts b) (index : Nat)
    (held : List (Option Nat)) : offer index a selectors held = offer index b selectors held := by
  induction selectors generalizing held with
  | nil => rfl
  | cons s ss ih =>
    obtain ⟨hs, hss⟩ := List.forall_mem_cons.1 h
    cases held with
    | nil => rfl
    | cons slot held => rw [offer, offer, hs, ih hss]

/-- Pools whose candidates pass the same tests place for place fill the same slots, whatever the slots
hold before. -/
theorem offerAll_congr
    (h : List.Forall₂ (fun a b => ∀ s ∈ selectors, s.accepts a = s.accepts b) pool pool')
    (index : Nat) (held : List (Option Nat)) :
    offerAll selectors index pool held = offerAll selectors index pool' held := by
  induction h generalizing index held with
  | nil => rfl
  | cons hab _ ih => rw [offerAll, offerAll, offer_congr hab, ih]

/-! ## Main statement -/

/-- **Only the mentioned fields matter.** Two pools of the same length, whose candidates agree place for
place on the fields that the selectors mention, give every selector the same answers and fill the slots
from the same places. -/
theorem assign_congr
    (h : List.Forall₂ (fun a b => ∀ s ∈ selectors, a.AgreeOn b s.fields) pool pool') :
    (∀ s ∈ selectors, pool.map s.accepts = pool'.map s.accepts) ∧
      (assign selectors pool).held = (assign selectors pool').held := by
  have haccepts :
      List.Forall₂ (fun a b => ∀ s ∈ selectors, s.accepts a = s.accepts b) pool pool' :=
    h.imp fun a b hab s hs => Selector.accepts_congr (hab s hs)
  refine ⟨fun s hs => ?_, offerAll_congr haccepts 0 _⟩
  rw [← List.forall₂_eq_eq_eq, List.forall₂_map_left_iff, List.forall₂_map_right_iff]
  exact haccepts.imp fun a b hab => hab s hs

/-- A value that is missing here and empty there, and a field that no selector mentions. -/
theorem assign_congr_missing_field :
    ∃ plain empty : Selector, ∃ pool pool' : List Attributes,
      List.Forall₂ (fun a b => ∀ s ∈ [plain, empty], a.AgreeOn b s.fields) pool pool' ∧
      pool.map (·.keys) = [["a", "z"], ["b"]] ∧ pool'.map (·.keys) = [["a", "b"], ["a", "b", "z"]] ∧
      (∀ s ∈ [plain, empty], pool.map s.accepts = pool'.map s.accepts) ∧
      (assign [plain, empty] pool).held = (assign [plain, empty] pool').held ∧
      (assign [plain, empty] pool').held = [some 0, some 1] := by
  let plain : Selector := .and (.condition ⟨"a", .equals, "x", _, rfl⟩)
    (.not (.condition ⟨"b", .contains, "1", _, rfl⟩))
  let empty : Selector := .condition ⟨"a", .equals, "", _, rfl⟩
  let pool : List Attributes :=
    [TextMap.ofList [("a", "x"), ("z", "1")], TextMap.ofList [("b", "1")]]
  let pool' : List Attributes :=
    [TextMap.ofList [("a", "x"), ("b", "")], TextMap.ofList [("a", ""), ("b", "1"), ("z", "2")]]
  have hagree : List.Forall₂ (fun a b => ∀ s ∈ [plain, empty], a.AgreeOn b s.fields) pool pool' := by
    decide +kernel
  obtain ⟨haccepts, hheld⟩ := assign_congr hagree
  exact ⟨plain, empty, pool, pool', hagree, by decide +kernel, by decide +kernel, haccepts, hheld,
    by decide +kernel⟩

end SlotQuery
