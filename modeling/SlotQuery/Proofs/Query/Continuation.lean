import SlotQuery.Query.Boundary

/-!
# What may follow a condition

The rule for the `]` that closes a condition, stated on texts: which strings lead from a `]` to the
next condition. `closes_iff` says that `Boundary.closes` decides the rule, and `cut?_eq_some_iff`
that `Boundary.cut?` finds the first `]` that satisfies it.

A string that leads on holds no `]` as long as no name does, so the rule never looks past the next
`]` (`continues_append_bracket`).
-/

namespace SlotQuery

open Text

/-- The characters that may stand between a field and `=`. -/
def Operator.marks : List Char := ['!', '=', '~', '$', '^', '*', '/']

/-- The marks are those characters that stand for an operator. -/
theorem Operator.ofMark?_isSome_iff {c : Char} : (ofMark? c).isSome ↔ c ∈ marks := by
  constructor
  · intro h
    obtain ⟨op, hop⟩ := Option.isSome_iff_exists.1 h
    rw [← mark_of_ofMark? hop]
    cases op <;> decide
  · intro h
    simp only [marks, List.mem_cons, List.not_mem_nil, or_false] at h
    rcases h with rfl | rfl | rfl | rfl | rfl | rfl | rfl <;> rfl

theorem FieldSet.starts_of_ne_nil {fields : FieldSet} (h : fields.names ≠ []) :
    fields.starts = fields.names.map String.toList := by
  rw [starts, if_neg (by simpa using h)]

/-- No known name counts as the empty one, so there is always a name to look for. -/
theorem FieldSet.starts_ne_nil (fields : FieldSet) : fields.starts ≠ [] := by
  unfold starts
  split
  · simp
  · next h => simpa using h

namespace Boundary

/-! ## The rule -/

/-- The start of a condition on one of the names: `[`, the name, at most one mark and `=`. -/
def Opening (names : List (List Char)) (w : List Char) : Prop :=
  ∃ name ∈ names, ∃ mark, (mark = [] ∨ ∃ m ∈ Operator.marks, mark = [m]) ∧
    w = '[' :: name ++ mark ++ ['=']

/-- A run of white space, `(` and `NOT` behind the character `before`, in which each `NOT` directly
follows white space or `(`. -/
inductive Approach : Char → List Char → Prop where
  | done {before : Char} : Approach before []
  | spacer {before c : Char} {w : List Char} : isSpacer c = true → Approach c w →
      Approach before (c :: w)
  | not {before : Char} {w : List Char} : isSpacer before = true → Approach 'T' w →
      Approach before ('N' :: 'O' :: 'T' :: w)

/-- What separates two conditions: a keyword or a white space character, with its last character. -/
inductive Separator : List Char → Char → Prop where
  | and : Separator ['A', 'N', 'D'] 'D'
  | or : Separator ['O', 'R'] 'R'
  | blank {c : Char} : isBlank c = true → Separator [c] c

/-- A separator and a run behind it lead to the start of a condition. -/
def Bridge (names : List (List Char)) (w : List Char) : Prop :=
  ∃ separator last items opening, Separator separator last ∧ Approach last items ∧
    Opening names opening ∧ w = separator ++ items ++ opening

/-- White space and closing parentheses, which may stand directly behind a condition. -/
def isTrailer (c : Char) : Bool := isBlank c || c == ')'

/-- The text behind a `]` makes it the closing one: behind a run of white space and `)` the text ends,
or a bridge leads to the next condition. -/
def Continues (names : List (List Char)) (cs : List Char) : Prop :=
  ∃ trail rest, cs = trail ++ rest ∧ (∀ c ∈ trail, isTrailer c = true) ∧
    (rest = [] ∨ ∃ w, Bridge names w ∧ w <+: rest)

/-! ## Condition starts -/

variable {names : List (List Char)} {cs : List Char}

/-- A comparison starts with a mark or none, and the sign of equality. -/
theorem startsComparison_iff :
    startsComparison cs = true ↔
      ∃ mark, (mark = [] ∨ ∃ m ∈ Operator.marks, mark = [m]) ∧ mark ++ ['='] <+: cs := by
  constructor
  · intro h
    unfold startsComparison at h
    split at h
    · next rest => exact ⟨[], .inl rfl, rest, rfl⟩
    · next c rest _ =>
      exact ⟨[c], .inr ⟨c, Operator.ofMark?_isSome_iff.1 h, rfl⟩, rest, rfl⟩
    · cases h
  · rintro ⟨_, rfl | ⟨m, hm, rfl⟩, rest, rfl⟩
    · rfl
    · by_cases he : m = '='
      · subst he
        rfl
      · simpa [startsComparison, he] using Operator.ofMark?_isSome_iff.2 hm

/-- A condition starts with a bracket, one of the names and a comparison. -/
theorem startsCondition_iff :
    startsCondition names cs = true ↔ ∃ w, Opening names w ∧ w <+: cs := by
  constructor
  · intro h
    unfold startsCondition at h
    split at h
    · next cs =>
      obtain ⟨name, hname, h⟩ := List.any_eq_true.1 h
      simp only [Bool.and_eq_true, List.isPrefixOf_iff_prefix] at h
      obtain ⟨⟨rest, rfl⟩, hcmp⟩ := h
      rw [List.drop_left] at hcmp
      obtain ⟨mark, hmark, hpre⟩ := startsComparison_iff.1 hcmp
      refine ⟨_, ⟨name, hname, mark, hmark, rfl⟩, ?_⟩
      simpa [List.append_assoc] using hpre
    · cases h
  · rintro ⟨_, ⟨name, hname, mark, hmark, rfl⟩, rest, rfl⟩
    refine List.any_eq_true.2 ⟨name, hname, ?_⟩
    have hcmp : startsComparison (mark ++ '=' :: rest) = true :=
      startsComparison_iff.2 ⟨mark, hmark, rest, by simp⟩
    simpa using hcmp

theorem startsCondition_head {c : Char} (h : startsCondition names (c :: cs) = true) : c = '[' := by
  unfold startsCondition at h
  split at h
  · next heq => exact (List.cons.inj heq).1
  · cases h

/-! ## Runs that lead to a condition -/

theorem isSpacer_of_isBlank {c : Char} (h : isBlank c = true) : isSpacer c = true := by
  simp [isSpacer, h]

theorem leads_not : leads names ('N' :: 'O' :: 'T' :: cs) = leadsOn names cs := by
  cases cs with
  | nil => rfl
  | cons c cs => simp [leads, leadsOn]

/-- White space and brackets of groups may stand in front as often as they like. -/
theorem leads_spacer {c : Char} (h : isSpacer c = true) :
    leads names (c :: cs) = leads names cs := by
  rw [leads, if_pos h]
  rintro _ rfl
  cases h

theorem leads_of_startsCondition (h : startsCondition names cs = true) : leads names cs = true := by
  cases cs with
  | nil => cases h
  | cons c cs =>
    obtain rfl := startsCondition_head h
    rw [leads, if_neg (by decide), h]
    intro _ he
    cases he

/-- A run of which the first `NOT`, if it comes first, has to look at `before`. -/
theorem leads_append_of_approach {before : Char} {items opening : List Char}
    (h : Approach before items) (ho : Opening names opening) (rest : List Char) :
    leads names (items ++ (opening ++ rest)) = true ∧
      (isSpacer before = false → leadsOn names (items ++ (opening ++ rest)) = true) := by
  have hstart : startsCondition names (opening ++ rest) = true :=
    startsCondition_iff.2 ⟨opening, ho, rest, rfl⟩
  induction h with
  | done =>
    refine ⟨leads_of_startsCondition hstart, fun _ => ?_⟩
    obtain ⟨name, _, mark, _, rfl⟩ := ho
    simpa [leadsOn] using Or.inl hstart
  | spacer hc _ ih =>
    refine ⟨by simpa only [List.cons_append, leads_spacer hc] using ih.1, fun _ => ?_⟩
    simp only [List.cons_append, leadsOn, Bool.or_eq_true, Bool.and_eq_true]
    exact .inr ⟨hc, ih.1⟩
  | not hb _ ih =>
    refine ⟨?_, fun hb' => absurd hb (by simp [hb'])⟩
    simpa only [List.cons_append, leads_not] using ih.2 (by decide)

/-- What `leads` accepts behind white space or `(` is a run and the start of a condition. -/
theorem approach_of_leads (h : leads names cs = true) {before : Char}
    (hb : isSpacer before = true) :
    ∃ items opening rest, Approach before items ∧ Opening names opening ∧
      cs = items ++ (opening ++ rest) := by
  fun_induction leads names cs generalizing before with
  | case1 => cases h
  | case2 cs ih =>
    rcases Bool.or_eq_true_iff.1 h with h | h
    · obtain ⟨opening, ho, rest, rfl⟩ := startsCondition_iff.1 h
      exact ⟨['N', 'O', 'T'], opening, rest, .not hb .done, ho, rfl⟩
    · cases cs with
      | nil => cases h
      | cons c cs =>
        obtain ⟨hc, h⟩ := Bool.and_eq_true_iff.1 h
        obtain ⟨items, opening, rest, hi, ho, rfl⟩ := ih h hc
        exact ⟨'N' :: 'O' :: 'T' :: c :: items, opening, rest, .not hb (.spacer hc hi), ho, rfl⟩
  | case3 c cs _ hc ih =>
    obtain ⟨items, opening, rest, hi, ho, rfl⟩ := ih h hc
    exact ⟨c :: items, opening, rest, .spacer hc hi, ho, rfl⟩
  | case4 c cs _ hc =>
    obtain ⟨opening, ho, rest, heq⟩ := startsCondition_iff.1 h
    exact ⟨[], opening, rest, .done, ho, heq.symm⟩

/-- What `leadsOn` accepts is a run and the start of a condition, with no `NOT` first in the run. -/
theorem approach_of_leadsOn (h : leadsOn names cs = true) (before : Char) :
    ∃ items opening rest, Approach before items ∧ Opening names opening ∧
      cs = items ++ (opening ++ rest) := by
  cases cs with
  | nil => cases h
  | cons c cs =>
    simp only [leadsOn, Bool.or_eq_true, Bool.and_eq_true] at h
    rcases h with h | ⟨hc, h⟩
    · obtain ⟨opening, ho, rest, heq⟩ := startsCondition_iff.1 h
      exact ⟨[], opening, rest, .done, ho, heq.symm⟩
    · obtain ⟨items, opening, rest, hi, ho, rfl⟩ := approach_of_leads h hc
      exact ⟨c :: items, opening, rest, .spacer hc hi, ho, rfl⟩

/-! ## The rule and its decision -/

theorem closes_blank {c : Char} (h : isBlank c = true) (gap : Bool) :
    closes names gap (c :: cs) = closes names true cs := by
  rw [closes, if_pos h]

theorem closes_paren (gap : Bool) : closes names gap (')' :: cs) = closes names false cs := by
  rw [closes, if_neg (by decide), if_pos rfl]

/-- White space in front of a run stands in for the gap. -/
theorem closes_of_leads (h : leads names cs = true) : closes names true cs = true := by
  induction cs with
  | nil => rfl
  | cons c cs ih =>
    by_cases hc : isBlank c = true
    · rw [closes_blank hc]
      exact ih (by rwa [leads_spacer (isSpacer_of_isBlank hc)] at h)
    · by_cases hp : c = ')'
      · subst hp
        have : startsCondition names (')' :: cs) = true := by
          rwa [leads, if_neg (by decide)] at h
          intro _ he
          cases he
        exact absurd (startsCondition_head this) (by decide)
      · rw [closes, if_neg hc, if_neg hp, h]
        rfl

/-- A bridge to the next condition may stand behind a closing bracket. -/
theorem closes_of_bridge {w : List Char} (h : Bridge names w) (gap : Bool) (rest : List Char) :
    closes names gap (w ++ rest) = true := by
  obtain ⟨separator, last, items, opening, hs, hi, ho, rfl⟩ := h
  have hlead := leads_append_of_approach hi ho rest
  simp only [List.append_assoc]
  cases hs with
  | and => simp [closes, hlead.2 (by decide), show isBlank 'A' = false by decide]
  | or => simp [closes, hlead.2 (by decide), show isBlank 'O' = false by decide]
  | blank hc =>
    simpa only [List.cons_append, List.nil_append, closes_blank hc] using closes_of_leads hlead.1

/-- White space and closed groups may come first. -/
theorem closes_trail {trail : List Char} (h : ∀ c ∈ trail, isTrailer c = true)
    (hcs : ∀ gap, closes names gap cs = true) (gap : Bool) :
    closes names gap (trail ++ cs) = true := by
  induction trail generalizing gap with
  | nil => exact hcs gap
  | cons c trail ih =>
    have ih := ih fun d hd => h d (List.mem_cons_of_mem c hd)
    have hc : isBlank c = true ∨ c = ')' := by simpa [isTrailer] using h c List.mem_cons_self
    rcases hc with hc | rfl
    · simpa only [List.cons_append, closes_blank hc] using ih true
    · simpa only [List.cons_append, closes_paren] using ih false

theorem closes_of_continues (h : Continues names cs) (gap : Bool) : closes names gap cs = true := by
  obtain ⟨trail, rest, rfl, htrail, hrest⟩ := h
  refine closes_trail htrail (fun gap => ?_) gap
  rcases hrest with rfl | ⟨w, hw, rest, rfl⟩
  · rfl
  · exact closes_of_bridge hw gap rest

/-- A trail may be longer by a character. -/
theorem Continues.cons {c : Char} (hc : isTrailer c = true) (h : Continues names cs) :
    Continues names (c :: cs) := by
  obtain ⟨trail, rest, rfl, htrail, hrest⟩ := h
  exact ⟨c :: trail, rest, rfl, by simpa [hc] using htrail, hrest⟩

theorem Continues.of_bridge {w : List Char} (h : Bridge names w) (rest : List Char) :
    Continues names (w ++ rest) :=
  ⟨[], _, rfl, by simp, .inr ⟨w, h, rest, rfl⟩⟩

/-- What `closes` accepts satisfies the rule, once the gap in front of the text is counted in. -/
theorem continues_of_closes {gap : Bool} (h : closes names gap cs = true) :
    Continues names cs ∨ gap = true ∧ leads names cs = true := by
  fun_induction closes names gap cs with
  | case1 => exact .inl ⟨[], [], rfl, by simp, .inl rfl⟩
  | case2 gap c cs hc ih =>
    refine .inl ?_
    rcases ih h with hcs | ⟨_, hlead⟩
    · exact hcs.cons (by simp [isTrailer, hc])
    · obtain ⟨items, opening, rest, hi, ho, rfl⟩ :=
        approach_of_leads hlead (isSpacer_of_isBlank hc)
      have hb : Bridge names (c :: (items ++ opening)) :=
        ⟨[c], c, items, opening, .blank hc, hi, ho, rfl⟩
      simpa [List.append_assoc] using Continues.of_bridge hb rest
  | case3 gap cs _ ih =>
    rcases ih h with hcs | ⟨hgap, _⟩
    · exact .inl (hcs.cons (by decide))
    · cases hgap
  | case4 gap c cs _ _ =>
    rcases Bool.or_eq_true_iff.1 h with h | h
    · exact .inr (Bool.and_eq_true_iff.1 h)
    · refine .inl ?_
      split at h
      · next rest heq =>
        obtain ⟨items, opening, rest, hi, ho, rfl⟩ := approach_of_leadsOn h 'D'
        have hb : Bridge names ('A' :: 'N' :: 'D' :: (items ++ opening)) :=
          ⟨_, _, items, opening, .and, hi, ho, rfl⟩
        rw [heq]
        simpa [List.append_assoc] using Continues.of_bridge hb rest
      · next rest heq =>
        obtain ⟨items, opening, rest, hi, ho, rfl⟩ := approach_of_leadsOn h 'R'
        have hb : Bridge names ('O' :: 'R' :: (items ++ opening)) :=
          ⟨_, _, items, opening, .or, hi, ho, rfl⟩
        rw [heq]
        simpa [List.append_assoc] using Continues.of_bridge hb rest
      · cases h

theorem closes_iff : closes names false cs = true ↔ Continues names cs :=
  ⟨fun h => (continues_of_closes h).resolve_right (by simp), (closes_of_continues · false)⟩

/-! ## The first closing bracket -/

/-- The text is cut at the first bracket behind which the query goes on. -/
theorem cut?_eq_some_iff {value rest : List Char} :
    cut? names cs = some (value, rest) ↔
      cs = value ++ ']' :: rest ∧ Continues names rest ∧
        ∀ v w, value = v ++ ']' :: w → ¬ Continues names (w ++ ']' :: rest) := by
  induction cs generalizing value with
  | nil => simp [cut?]
  | cons c cs ih =>
    simp only [cut?, Bool.and_eq_true, decide_eq_true_eq]
    split
    · next hc =>
      obtain ⟨rfl, hclose⟩ := hc
      constructor
      · rintro ⟨⟩
        exact ⟨rfl, closes_iff.1 hclose, by simp⟩
      · rintro ⟨heq, -, hfirst⟩
        cases value with
        | nil => cases heq; rfl
        | cons d value =>
          obtain ⟨rfl, rfl⟩ := List.cons.inj heq
          exact absurd (closes_iff.1 hclose) (hfirst [] value rfl)
    · next hc =>
      simp only [Option.map_eq_some_iff, Prod.mk.injEq, Prod.exists]
      constructor
      · rintro ⟨value', rest', hcut, rfl, rfl⟩
        obtain ⟨rfl, hcont, hfirst⟩ := ih.1 hcut
        refine ⟨rfl, hcont, fun v w heq => ?_⟩
        cases v with
        | nil =>
          obtain ⟨rfl, rfl⟩ := List.cons.inj heq
          exact fun hw => hc ⟨rfl, closes_iff.2 hw⟩
        | cons d v => exact hfirst v w (List.cons.inj heq).2
      · rintro ⟨heq, hcont, hfirst⟩
        cases value with
        | nil =>
          obtain ⟨rfl, rfl⟩ := List.cons.inj heq
          exact absurd ⟨rfl, closes_iff.2 hcont⟩ hc
        | cons d value =>
          obtain ⟨rfl, rfl⟩ := List.cons.inj heq
          refine ⟨value, rest, ih.2 ⟨rfl, hcont, fun v w hvw => ?_⟩, rfl, rfl⟩
          exact hfirst (c :: v) w (by rw [hvw]; rfl)

/-- No cut is made where the query goes on behind no bracket. -/
theorem cut?_eq_none_iff :
    cut? names cs = none ↔ ∀ v w, cs = v ++ ']' :: w → ¬ Continues names w := by
  induction cs with
  | nil => simp [cut?]
  | cons c cs ih =>
    simp only [cut?, Bool.and_eq_true, decide_eq_true_eq]
    split
    · next hc =>
      obtain ⟨rfl, hclose⟩ := hc
      simp only [reduceCtorEq, false_iff]
      exact fun h => h [] cs rfl (closes_iff.1 hclose)
    · next hc =>
      rw [Option.map_eq_none_iff, ih]
      constructor
      · intro h v w heq
        cases v with
        | nil =>
          obtain ⟨rfl, rfl⟩ := List.cons.inj heq
          exact fun hw => hc ⟨rfl, closes_iff.2 hw⟩
        | cons d v => exact h v w (List.cons.inj heq).2
      · intro h v w heq
        exact h (c :: v) w (by rw [heq]; rfl)

/-! ## Brackets in front of the next condition -/

theorem Approach.bracket_notMem {before : Char} {w : List Char} (h : Approach before w) :
    ']' ∉ w := by
  induction h with
  | done => simp
  | spacer hc _ ih =>
    rw [List.mem_cons, not_or]
    refine ⟨?_, ih⟩
    rintro rfl
    cases hc
  | not _ _ ih => simp [ih]

theorem bracket_notMem_mark {mark : List Char}
    (h : mark = [] ∨ ∃ m ∈ Operator.marks, mark = [m]) : ']' ∉ mark := by
  rcases h with rfl | ⟨m, hm, rfl⟩
  · exact List.not_mem_nil
  · intro hbracket
    obtain rfl := List.mem_singleton.1 hbracket
    exact absurd hm (by decide)

theorem Opening.bracket_notMem {w : List Char} (h : Opening names w)
    (hnames : ∀ name ∈ names, ']' ∉ name) : ']' ∉ w := by
  obtain ⟨name, hname, mark, hmark, rfl⟩ := h
  simp [hnames name hname, bracket_notMem_mark hmark]

/-- No closing bracket stands between two conditions, unless it is part of a name. -/
theorem Bridge.bracket_notMem {w : List Char} (h : Bridge names w)
    (hnames : ∀ name ∈ names, ']' ∉ name) : ']' ∉ w := by
  obtain ⟨separator, last, items, opening, hs, hi, ho, rfl⟩ := h
  have hsep : ']' ∉ separator := by
    cases hs with
    | and => decide
    | or => decide
    | blank hc =>
      rintro h
      obtain rfl := List.mem_singleton.1 h
      cases hc
  simp [hsep, hi.bracket_notMem, ho.bracket_notMem hnames]

/-- A prefix of a text that does not hold the character `x` ends in front of the first `x`. -/
theorem prefix_of_prefix_append {x : Char} {w v rest : List Char} (h : w <+: v ++ x :: rest)
    (hx : x ∉ w) : w <+: v := by
  rcases List.prefix_or_prefix_of_prefix h (List.prefix_append v (x :: rest)) with hw | hv
  · exact hw
  · obtain ⟨u, rfl⟩ := hv
    rw [List.prefix_append_right_inj] at h
    cases u with
    | nil => simp
    | cons y u => 
      obtain ⟨rfl, -⟩ := List.cons_prefix_cons.1 h
      simp at hx

/-- In front of another `]` only that text decides which stands between the two. -/
theorem continues_append_bracket (hnames : ∀ name ∈ names, ']' ∉ name) {v rest : List Char} :
    Continues names (v ++ ']' :: rest) ↔
      ∃ trail w, (∀ c ∈ trail, isTrailer c = true) ∧ Bridge names w ∧ trail ++ w <+: v := by
  constructor
  · rintro ⟨trail, tail, heq, htrail, htail⟩
    have htb : ']' ∉ trail := fun h => absurd (htrail _ h) (by decide)
    rcases htail with rfl | ⟨w, hw, hpre⟩
    · rw [List.append_nil] at heq
      exact absurd (heq ▸ List.mem_append_right v List.mem_cons_self) htb
    · have hpre' : trail ++ w <+: v ++ ']' :: rest := by
        rw [heq]
        exact (List.prefix_append_right_inj trail).2 hpre
      have hmem : ']' ∉ trail ++ w := by simp [htb, hw.bracket_notMem hnames]
      exact ⟨trail, w, htrail, hw, prefix_of_prefix_append hpre' hmem⟩
  · rintro ⟨trail, w, htrail, hw, u, rfl⟩
    refine ⟨trail, w ++ (u ++ ']' :: rest), by simp, htrail, .inr ⟨w, hw, ?_⟩⟩
    exact List.prefix_append w _

end Boundary

end SlotQuery
