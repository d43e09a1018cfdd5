import Mathlib.Data.Nat.Find
import Mathlib.Order.Bounds.Basic
import SlotQuery.Query.Assignment

/-!
# First fit, slot by slot

`assign` takes the candidates one after the other and looks for a slot for each. Here the loops are
nested the other way round: the first slot takes the first candidate that its selector accepts, and the
other slots share the candidates that are left (`offerEach_none`). So every slot holds the least place
of an accepted candidate that no earlier slot holds. Main statement: `assign_isLeast`.
-/

namespace SlotQuery

/-! ## Numbered candidates -/

/-- The slots after the numbered candidates were offered to them in turn. -/
def offerEach (selectors : List Selector) (candidates : List (Attributes × Nat))
    (held : List (Option Nat)) : List (Option Nat) :=
  candidates.foldl (fun held c => offer c.2 c.1 selectors held) held

/-- The selector accepts the numbered candidate. -/
def Selector.fits (s : Selector) (c : Attributes × Nat) : Bool := s.accepts c.1

variable {s : Selector} {ss : List Selector} {candidates : List (Attributes × Nat)}

theorem offerAll_eq_offerEach (selectors : List Selector) (index : Nat) (pool : List Attributes)
    (held : List (Option Nat)) :
    offerAll selectors index pool held = offerEach selectors (pool.zipIdx index) held := by
  induction pool generalizing index held with
  | nil => rfl
  | cons c cs ih => exact ih (index + 1) (offer index c selectors held)

theorem offerEach_nil (candidates : List (Attributes × Nat)) : offerEach [] candidates [] = [] := by
  induction candidates with
  | nil => rfl
  | cons c cs ih => exact ih

/-- A slot that holds a candidate keeps it and leaves all others to the slots behind it. -/
theorem offerEach_some (i : Nat) (held : List (Option Nat)) :
    offerEach (s :: ss) candidates (some i :: held) = some i :: offerEach ss candidates held := by
  induction candidates generalizing held with
  | nil => rfl
  | cons c cs ih => exact ih (offer c.2 c.1 ss held)

/-- An empty slot takes the first candidate that its selector accepts and leaves the others to the
slots behind it. -/
theorem offerEach_none (held : List (Option Nat)) :
    offerEach (s :: ss) candidates (none :: held) =
      (candidates.find? s.fits).map Prod.snd :: offerEach ss (candidates.eraseP s.fits) held := by
  induction candidates generalizing held with
  | nil => rfl
  | cons c cs ih =>
    have hfold : offerEach (s :: ss) (c :: cs) (none :: held) =
        offerEach (s :: ss) cs (offer c.2 c.1 (s :: ss) (none :: held)) := rfl
    by_cases hc : s.fits c = true
    · have hoffer : offer c.2 c.1 (s :: ss) (none :: held) = some c.2 :: held :=
        if_pos (by simpa [Selector.fits] using hc)
      rw [hfold, hoffer, offerEach_some, List.find?_cons_of_pos hc, List.eraseP_cons_of_pos hc]
      rfl
    · have hoffer : offer c.2 c.1 (s :: ss) (none :: held) = none :: offer c.2 c.1 ss held :=
        if_neg (by simpa [Selector.fits] using hc)
      rw [hfold, hoffer, ih, List.find?_cons_of_neg hc, List.eraseP_cons_of_neg hc]
      rfl

/-! ## Filling the slots in turn -/

/-- The slots filled one after the other: each takes the first candidate left that its selector
accepts. -/
def fillSlots : List Selector → List (Attributes × Nat) → List (Option Nat)
  | [], _ => []
  | s :: ss, candidates =>
    (candidates.find? s.fits).map Prod.snd :: fillSlots ss (candidates.eraseP s.fits)

theorem offerEach_eq_fillSlots (selectors : List Selector) (candidates : List (Attributes × Nat)) :
    offerEach selectors candidates (selectors.map fun _ => none) = fillSlots selectors candidates := by
  induction selectors generalizing candidates with
  | nil => exact offerEach_nil candidates
  | cons s ss ih => rw [List.map_cons, offerEach_none, ih, fillSlots]

/-- Offering the candidates in turn fills the slots in turn. -/
theorem held_assign (selectors : List Selector) (pool : List Attributes) :
    (assign selectors pool).held = fillSlots selectors pool.zipIdx := by
  rw [← offerEach_eq_fillSlots, ← offerAll_eq_offerEach]
  rfl

theorem length_fillSlots (selectors : List Selector) (candidates : List (Attributes × Nat)) :
    (fillSlots selectors candidates).length = selectors.length := by
  induction selectors generalizing candidates with
  | nil => rfl
  | cons s ss ih => exact congrArg (· + 1) (ih _)

/-- More slots behind the others change nothing for these. -/
theorem fillSlots_prefix (selectors more : List Selector) (candidates : List (Attributes × Nat)) :
    fillSlots selectors candidates <+: fillSlots (selectors ++ more) candidates := by
  induction selectors generalizing candidates with
  | nil => exact List.nil_prefix
  | cons s ss ih => exact List.cons_prefix_cons.2 ⟨rfl, ih _⟩

/-! ## The first candidate that is left -/

/-- The numbers of the candidates grow. -/
def Numbered (candidates : List (Attributes × Nat)) : Prop :=
  candidates.Pairwise fun c d => c.2 < d.2

theorem numbered_zipIdx (pool : List Attributes) : Numbered pool.zipIdx := by
  have hlt : (pool.zipIdx.map Prod.snd).Pairwise (· < ·) := by
    rw [List.zipIdx_map_snd]
    exact List.pairwise_lt_range'
  exact List.pairwise_map.1 hlt

/-- The first of the candidates has the least number. -/
theorem Numbered.find?_eq_some_iff {p : Attributes × Nat → Bool} (h : Numbered candidates) {i : Nat} :
    (candidates.find? p).map Prod.snd = some i ↔
      IsLeast {i | ∃ c, (c, i) ∈ candidates ∧ p (c, i) = true} i := by
  induction candidates with
  | nil => simp [IsLeast]
  | cons d cs ih =>
    obtain ⟨hlt, hcs⟩ := List.pairwise_cons.1 h
    by_cases hd : p d = true
    · have hleast : IsLeast {i | ∃ c, (c, i) ∈ d :: cs ∧ p (c, i) = true} d.2 := by
        refine ⟨⟨d.1, List.mem_cons_self, hd⟩, ?_⟩
        rintro j ⟨c, hc, -⟩
        rcases List.mem_cons.1 hc with rfl | hc
        · exact Nat.le_refl _
        · exact Nat.le_of_lt (hlt _ hc)
      rw [List.find?_cons_of_pos hd, Option.map_some, Option.some_inj]
      exact ⟨fun hi => hi ▸ hleast, hleast.unique⟩
    · have hset : {i | ∃ c, (c, i) ∈ d :: cs ∧ p (c, i) = true} =
          {i | ∃ c, (c, i) ∈ cs ∧ p (c, i) = true} := by
        ext j
        constructor
        · rintro ⟨c, hc, hp⟩
          rcases List.mem_cons.1 hc with rfl | hc
          · exact absurd hp hd
          · exact ⟨c, hc, hp⟩
        · rintro ⟨c, hc, hp⟩
          exact ⟨c, List.mem_cons_of_mem d hc, hp⟩
      rw [List.find?_cons_of_neg hd, hset]
      exact ih hcs

/-- All candidates are left but the first one. -/
theorem Numbered.mem_eraseP {p : Attributes × Nat → Bool} (h : Numbered candidates)
    {d : Attributes × Nat} :
    d ∈ candidates.eraseP p ↔
      d ∈ candidates ∧ (candidates.find? p).map Prod.snd ≠ some d.2 := by
  induction candidates with
  | nil => simp
  | cons c cs ih =>
    obtain ⟨hlt, hcs⟩ := List.pairwise_cons.1 h
    by_cases hc : p c = true
    · rw [List.eraseP_cons_of_pos hc, List.find?_cons_of_pos hc, List.mem_cons]
      constructor
      · intro hd
        exact ⟨.inr hd, fun he => Nat.ne_of_lt (hlt d hd) (Option.some.inj he)⟩
      · rintro ⟨rfl | hd, hne⟩
        · exact absurd rfl hne
        · exact hd
    · rw [List.eraseP_cons_of_neg hc, List.find?_cons_of_neg hc, List.mem_cons, List.mem_cons, ih hcs]
      constructor
      · rintro (rfl | ⟨hd, hne⟩)
        · -- a candidate found behind it has a larger number
          refine ⟨.inl rfl, fun he => ?_⟩
          obtain ⟨e, he, heq⟩ := Option.map_eq_some_iff.1 he
          exact Nat.ne_of_lt (hlt e (List.mem_of_find?_eq_some he)) heq.symm
        · exact ⟨.inr hd, hne⟩
      · rintro ⟨rfl | hd, hne⟩
        · exact .inl rfl
        · exact .inr ⟨hd, hne⟩

/-! ## The least place -/

/-- The numbers of the candidates that the selector accepts and none of the slots `earlier` holds. -/
def Selector.choicesAmong (s : Selector) (candidates : List (Attributes × Nat))
    (earlier : List (Option Nat)) : Set Nat :=
  {i | ∃ c, (c, i) ∈ candidates ∧ s.accepts c = true ∧ some i ∉ earlier}

theorem Numbered.choicesAmong_eraseP (h : Numbered candidates) (t : Selector)
    (p : Attributes × Nat → Bool) (earlier : List (Option Nat)) :
    t.choicesAmong (candidates.eraseP p) earlier =
      t.choicesAmong candidates ((candidates.find? p).map Prod.snd :: earlier) := by
  ext i
  constructor
  · rintro ⟨c, hc, haccepts, hfree⟩
    obtain ⟨hc, hne⟩ := h.mem_eraseP.1 hc
    exact ⟨c, hc, haccepts, List.not_mem_cons_of_ne_of_not_mem hne.symm hfree⟩
  · rintro ⟨c, hc, haccepts, hfree⟩
    rw [List.mem_cons, not_or] at hfree
    exact ⟨c, h.mem_eraseP.2 ⟨hc, Ne.symm hfree.1⟩, haccepts, hfree.2⟩

/-- A slot holds the least number that its selector and the slots in front of it leave to it. -/
theorem fillSlots_isLeast {selectors : List Selector} (h : Numbered candidates) {j : Nat}
    (hs : selectors[j]? = some s) {i : Nat} :
    (fillSlots selectors candidates)[j]? = some (some i) ↔
      IsLeast (s.choicesAmong candidates ((fillSlots selectors candidates).take j)) i := by
  induction selectors generalizing candidates j with
  | nil => cases hs
  | cons t ss ih =>
    cases j with
    | zero =>
      obtain rfl : t = s := Option.some.inj hs
      have hset : t.choicesAmong candidates [] =
          {i | ∃ c, (c, i) ∈ candidates ∧ t.fits (c, i) = true} := by
        simp [Selector.choicesAmong, Selector.fits]
      rw [fillSlots, List.getElem?_cons_zero, Option.some_inj, List.take_zero, hset]
      exact h.find?_eq_some_iff
    | succ j =>
      have hleft : Numbered (candidates.eraseP t.fits) :=
        List.Pairwise.sublist List.eraseP_sublist h
      rw [fillSlots, List.getElem?_cons_succ, List.take_succ_cons, ← h.choicesAmong_eraseP]
      exact ih hleft hs

/-- The places in the pool of the candidates that the selector accepts and none of the slots `earlier`
holds. -/
def Selector.choices (s : Selector) (pool : List Attributes) (earlier : List (Option Nat)) : Set Nat :=
  {i | ∃ c, pool[i]? = some c ∧ s.accepts c = true ∧ some i ∉ earlier}

theorem Selector.choicesAmong_zipIdx (s : Selector) (pool : List Attributes)
    (earlier : List (Option Nat)) : s.choicesAmong pool.zipIdx earlier = s.choices pool earlier := by
  simp only [choicesAmong, choices, List.mem_zipIdx_iff_getElem?]

section Assign

variable {selectors : List Selector} {pool : List Attributes} {j : Nat}

theorem length_held_assign (selectors : List Selector) (pool : List Attributes) :
    (assign selectors pool).held.length = selectors.length := by
  rw [held_assign, length_fillSlots]

theorem held_assign_eq_some_iff (hs : selectors[j]? = some s) {i : Nat} :
    (assign selectors pool).held[j]? = some (some i) ↔
      IsLeast (s.choices pool ((assign selectors pool).held.take j)) i := by
  rw [held_assign, ← Selector.choicesAmong_zipIdx]
  exact fillSlots_isLeast (numbered_zipIdx pool) hs

theorem held_assign_eq_none_iff (hs : selectors[j]? = some s) :
    (assign selectors pool).held[j]? = some none ↔
      s.choices pool ((assign selectors pool).held.take j) = ∅ := by
  have hj : j < (assign selectors pool).held.length := by
    rw [length_held_assign]
    exact (List.getElem?_eq_some_iff.1 hs).1
  constructor
  · intro hnone
    by_contra hne
    have hex := Set.nonempty_iff_ne_empty.2 hne
    classical
    have hleast : IsLeast (s.choices pool ((assign selectors pool).held.take j)) (Nat.find hex) :=
      ⟨Nat.find_spec hex, fun _ hi => Nat.find_min' hex hi⟩
    cases hnone.symm.trans ((held_assign_eq_some_iff hs).2 hleast)
  · intro hempty
    obtain ⟨h, hh⟩ : ∃ h, (assign selectors pool).held[j]? = some h :=
      ⟨_, List.getElem?_eq_getElem hj⟩
    cases h with
    | none => exact hh
    | some i =>
      have hi := ((held_assign_eq_some_iff hs).1 hh).1
      rw [hempty] at hi
      cases hi

/-- What a slot holds is a choice of its selector. -/
theorem mem_choices_of_held {i : Nat} (h : (assign selectors pool).held[j]? = some (some i)) :
    ∃ s, selectors[j]? = some s ∧ i ∈ s.choices pool ((assign selectors pool).held.take j) := by
  have hj : j < selectors.length := by
    rw [← length_held_assign selectors pool]
    exact (List.getElem?_eq_some_iff.1 h).1
  have hs : selectors[j]? = some selectors[j] := List.getElem?_eq_getElem hj
  exact ⟨_, hs, ((held_assign_eq_some_iff hs).1 h).1⟩

/-- What a slot holds is a place of the pool, so there is a candidate in every slot that is not empty. -/
theorem isSome_getElem?_of_held {held : Option Nat} (h : held ∈ (assign selectors pool).held) :
    (held.bind (pool[·]?)).isSome = held.isSome := by
  cases held with
  | none => rfl
  | some i =>
    obtain ⟨j, hj⟩ := List.getElem?_of_mem h
    obtain ⟨-, -, c, hc, -, -⟩ := mem_choices_of_held hj
    rw [Option.bind_some, hc]
    rfl

theorem held_assign_ne_of_lt {i k : Nat} (hjk : j < k)
    (hj : (assign selectors pool).held[j]? = some (some i)) :
    (assign selectors pool).held[k]? ≠ some (some i) := by
  intro hk
  obtain ⟨-, -, -, -, -, hfree⟩ := mem_choices_of_held hk
  exact hfree (List.mem_of_getElem? (by rwa [List.getElem?_take_of_lt hjk]))

/-- No candidate is in two slots. -/
theorem held_assign_inj {i k : Nat} (hj : (assign selectors pool).held[j]? = some (some i))
    (hk : (assign selectors pool).held[k]? = some (some i)) : j = k := by
  rcases Nat.lt_trichotomy j k with hlt | heq | hlt
  · exact absurd hk (held_assign_ne_of_lt hlt hj)
  · exact heq
  · exact absurd hj (held_assign_ne_of_lt hlt hk)

end Assign

/-- **First fit, slot by slot.** One pass over the candidates gives every slot the least place of a
candidate that its selector accepts and that no slot in front of it holds, and leaves it empty if there
is none. So there is one entry for each selector, every place is one of the pool, no candidate is in two
slots, and slots that are appended change nothing for those in front of them. -/
theorem assign_isLeast (selectors : List Selector) (pool : List Attributes) :
    (assign selectors pool).held.length = selectors.length ∧
    (∀ (j : Nat) (s : Selector), selectors[j]? = some s →
      (∀ i, (assign selectors pool).held[j]? = some (some i) ↔
        IsLeast (s.choices pool ((assign selectors pool).held.take j)) i) ∧
      ((assign selectors pool).held[j]? = some none ↔
        s.choices pool ((assign selectors pool).held.take j) = ∅)) ∧
    (∀ (j i : Nat), (assign selectors pool).held[j]? = some (some i) → i < pool.length) ∧
    (∀ (j k i : Nat), (assign selectors pool).held[j]? = some (some i) →
      (assign selectors pool).held[k]? = some (some i) → j = k) ∧
    ∀ more, (assign selectors pool).held <+: (assign (selectors ++ more) pool).held := by
  refine ⟨length_held_assign selectors pool, fun j s hs => ?_, fun j i h => ?_, fun j k i hj hk => ?_,
    fun more => ?_⟩
  · exact ⟨fun i => held_assign_eq_some_iff hs, held_assign_eq_none_iff hs⟩
  · obtain ⟨-, -, c, hc, -, -⟩ := mem_choices_of_held h
    exact (List.getElem?_eq_some_iff.1 hc).1
  · rcases Nat.lt_trichotomy j k with hlt | rfl | hlt
    · exact absurd hk (held_assign_ne_of_lt hlt hj)
    · rfl
    · exact absurd hj (held_assign_ne_of_lt hlt hk)
  · rw [held_assign, held_assign]
    exact fillSlots_prefix selectors more pool.zipIdx

/-- The candidate that fits both slots goes to the first one, although only the first one could take the
other candidate: this is no maximum matching. -/
theorem assign_isLeast_contested :
    ∃ contains equals : Selector, ∃ pool : List Attributes,
      (assign [contains, equals] pool).held = [some 0, none] ∧
      IsLeast (contains.choices pool []) 0 ∧ equals.choices pool [some 0] = ∅ ∧
      (pool.map contains.accepts = [true, true] ∧ pool.map equals.accepts = [true, false]) := by
  let contains : Selector := .condition ⟨"a", .contains, "x", _, rfl⟩
  let equals : Selector := .condition ⟨"a", .equals, "x", _, rfl⟩
  let pool : List Attributes := [TextMap.ofList [("a", "x")], TextMap.ofList [("a", "xy")]]
  have hheld : (assign [contains, equals] pool).held = [some 0, none] := by decide +kernel
  have haccepts : pool.map contains.accepts = [true, true] ∧
      pool.map equals.accepts = [true, false] := by decide +kernel
  obtain ⟨-, hslots, -⟩ := assign_isLeast [contains, equals] pool
  rw [hheld] at hslots
  exact ⟨contains, equals, pool, hheld, ((hslots 0 contains rfl).1 0).1 rfl,
    (hslots 1 equals rfl).2.1 rfl, haccepts⟩

end SlotQuery
