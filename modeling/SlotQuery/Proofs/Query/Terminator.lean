import Mathlib.Order.Bounds.Basic
import SlotQuery.Proofs.Query.Continuation
import SlotQuery.Proofs.Regex.Span
import SlotQuery.Regex.Parser

/-!
# The end of a condition as a pattern

The rule of `Boundary.Continues` looks back from a `NOT` to the character in front of it. Patterns
have no look-behind, so `FieldSet.terminator` lets each repeated `NOT` carry the white space or `(`
behind it and tells apart what may stand in front of the first one. It starts a match at a `]`
exactly when the text behind satisfies the rule.
-/

open scoped Computability

namespace SlotQuery

open Text Regex Boundary

namespace Terminator

/-! ## The pattern -/

/-- A character of one of the sets. -/
def oneOf (sets : List CharSet) : Regex := .chars (sets.foldl .union .nothing)

/-- One of the branches, or nothing when there is none. -/
def anyOf : List Regex → Regex
  | [] => .empty
  | [r] => r
  | r :: s :: rs => .alt r (anyOf (s :: rs))

/-- The characters of a word, to be followed by more. -/
def spelled (w : String) : List Regex := w.toList.map fun c => .chars (.literal false c)

/-- `[\s(]` -/
def spacer : Regex := oneOf [.blank, .only '(']

/-- `(?:OR|AND)` -/
def keyword : Regex := anyOf [literal false "OR".toList, literal false "AND".toList]

/-- `\[(?:names)[!=~$^*/]?=` -/
def start (names : List (List Char)) : List Regex :=
  [.chars (.only '['), anyOf (names.map (literal false)),
    .rep (oneOf (Operator.marks.map .only)) 0 (some 1), .chars (.only '=')]

/-- `(?:OR|AND)start` -/
def glued (names : List (List Char)) : Regex := sequence (keyword :: start names)

/-- `(?:(?:OR|AND)[\s(]|\s)(?:[\s(]|NOT[\s(])*(?:NOT)?start` -/
def spaced (names : List (List Char)) : Regex :=
  sequence <|
    anyOf [sequence [keyword, spacer], sequence [.chars .blank]] ::
    .rep (anyOf [sequence [spacer], sequence (spelled "NOT" ++ [spacer])]) 0 none ::
    .rep (literal false "NOT".toList) 0 (some 1) ::
    start names

/-- `\][\s)]*(?:$|glued|spaced)` -/
def pattern (names : List (List Char)) : Regex :=
  sequence [.chars (.only ']'), .rep (oneOf [.blank, .only ')']) 0 none,
    anyOf [sequence [.anchor .textEnd], glued names, spaced names]]

/-! ## The words that the pattern reads -/

/-- The starts of conditions on the names. -/
def openings (names : List (List Char)) : Language Char := {w | Opening names w}

/-- The keywords between conditions. -/
def keywords : Language Char := words [['O', 'R'], ['A', 'N', 'D']]

theorem contains_union (s : CharSet) (sets : List CharSet) (c : Char) :
    (sets.foldl .union s).contains c = (s.contains c || sets.any (·.contains c)) := by
  induction sets generalizing s with
  | nil => simp
  | cons t sets ih => rw [List.foldl_cons, ih, List.any_cons, ← Bool.or_assoc]; rfl

/-- A character of one of the sets. -/
theorem reads_oneOf {sets : List CharSet} {p : Char → Bool}
    (h : ∀ c, sets.any (·.contains c) = p c) : Reads (oneOf sets) (letters p) := by
  have hp : (sets.foldl CharSet.union .nothing).contains = p := by
    funext c
    rw [contains_union, ← h c]
    rfl
  exact hp ▸ reads_chars _

/-- The alternation of the names reads the names. -/
theorem reads_anyOf_literals {names : List (List Char)} (h : names ≠ []) :
    Reads (anyOf (names.map (literal false))) (words names) := by
  match names, h with
  | [name], _ =>
    have heq : words [name] = {name} := Language.ext fun w => List.mem_singleton
    exact heq ▸ reads_literal name
  | name :: other :: names, _ =>
    have heq : words (name :: other :: names) = {name} + words (other :: names) := by
      ext w
      exact List.mem_cons
    exact heq ▸ (reads_literal name).alt (reads_anyOf_literals (List.cons_ne_nil other names))

theorem reads_keyword : Reads keyword keywords :=
  reads_anyOf_literals (List.cons_ne_nil ['O', 'R'] [['A', 'N', 'D']])

theorem reads_spacer : Reads spacer (letters isSpacer) :=
  reads_oneOf fun c => by simp [isSpacer, CharSet.contains_only, CharSet.contains]

theorem reads_trail : Reads (.rep (oneOf [.blank, .only ')']) 0 none) (letters isTrailer)∗ :=
  (reads_oneOf fun c => by simp [isTrailer, CharSet.contains_only, CharSet.contains]).star

theorem reads_mark : Reads (oneOf (Operator.marks.map .only)) (letters Operator.marks.contains) :=
  reads_oneOf fun c => by
    rw [Bool.eq_iff_iff]
    simp [Operator.marks, CharSet.contains_only]

/-- What a condition starts with. -/
theorem reads_start {names : List (List Char)} (h : names ≠ []) :
    Reads (sequence (start names)) (openings names) := by
  have hreads := (reads_only '[').seq <| (reads_anyOf_literals h).seq <|
    reads_mark.optional.seq <| (reads_only '=').seq reads_empty
  have hlang : openings names = {['[']} * (words names *
      ((1 + letters Operator.marks.contains) * ({['=']} * 1))) := by
    ext w
    constructor
    · rintro ⟨name, hname, mark, hmark, rfl⟩
      have hm : mark ∈ 1 + letters Operator.marks.contains := by
        rcases hmark with rfl | ⟨m, hm, rfl⟩
        · exact .inl rfl
        · exact .inr ⟨m, List.contains_iff_mem.2 hm, rfl⟩
      rw [mul_one, List.append_assoc]
      exact Language.append_mem_mul (a := ['[']) rfl <| Language.append_mem_mul hname <|
        Language.append_mem_mul hm rfl
    · intro hw
      rw [mul_one] at hw
      obtain ⟨_, rfl, _, hnamed, rfl⟩ := Language.mem_mul.1 hw
      obtain ⟨name, hname, _, hmarked, rfl⟩ := Language.mem_mul.1 hnamed
      obtain ⟨mark, hmark, _, rfl, rfl⟩ := Language.mem_mul.1 hmarked
      refine ⟨name, hname, mark, ?_, by simp⟩
      rcases hmark with rfl | ⟨m, hm, rfl⟩
      · exact .inl rfl
      · exact .inr ⟨m, List.contains_iff_mem.1 hm, rfl⟩
  exact hlang ▸ hreads

/-- One step of a run: white space or `(`, by itself or behind a `NOT`. -/
def strides : Language Char := letters isSpacer + {['N', 'O', 'T']} * letters isSpacer

/-- The runs in which a `NOT` may come first. -/
def runs : Language Char := strides∗ * (1 + {['N', 'O', 'T']})

theorem reads_strides :
    Reads (anyOf [sequence [spacer], sequence (spelled "NOT" ++ [spacer])]) strides :=
  reads_spacer.sequence_singleton.alt (reads_spacer.sequence_singleton.spelled ['N', 'O', 'T'])

theorem append_mem_runs {v w : List Char} (hv : v ∈ strides) (hw : w ∈ runs) : v ++ w ∈ runs := by
  obtain ⟨u, hu, stop, hstop, rfl⟩ := Language.mem_mul.1 hw
  have hvu : v ++ u ∈ strides∗ :=
    Set.mem_of_mem_of_subset (Language.append_mem_mul hv hu) (mul_kstar_le_kstar (a := strides))
  rw [← List.append_assoc]
  exact Language.append_mem_mul hvu hstop

theorem nil_mem_runs : [] ∈ runs :=
  Language.append_mem_mul (Language.nil_mem_kstar strides) (.inl rfl)

theorem not_mem_runs : ['N', 'O', 'T'] ∈ runs :=
  Language.append_mem_mul (Language.nil_mem_kstar strides) (.inr rfl)

theorem spacer_mem_strides {c : Char} (h : isSpacer c = true) : [c] ∈ strides :=
  .inl ⟨c, h, rfl⟩

theorem not_spacer_mem_strides {c : Char} (h : isSpacer c = true) :
    ['N', 'O', 'T', c] ∈ strides :=
  .inr (Language.append_mem_mul (a := ['N', 'O', 'T']) rfl ⟨c, h, rfl⟩)

/-- Strides from one spacer to the next lead to a condition. -/
theorem approach_of_strides {ws : List (List Char)} (hws : ∀ w ∈ ws, w ∈ strides)
    {before : Char} (hb : isSpacer before = true) {stop : List Char}
    (hstop : ∀ before, isSpacer before = true → Approach before stop) :
    Approach before (ws.flatten ++ stop) := by
  induction ws generalizing before with
  | nil => exact hstop before hb
  | cons w ws ih =>
    have ih := fun {c} (hc : isSpacer c = true) =>
      ih (fun v hv => hws v (List.mem_cons_of_mem w hv)) hc
    rw [List.flatten_cons, List.append_assoc]
    rcases hws w List.mem_cons_self with ⟨c, hc, rfl⟩ | hw
    · exact .spacer hc (ih hc)
    · obtain ⟨_, rfl, _, ⟨c, hc, rfl⟩, rfl⟩ := Language.mem_mul.1 hw
      exact .not hb (.spacer hc (ih hc))

theorem approach_of_mem_runs {w : List Char} (h : w ∈ runs) {before : Char}
    (hb : isSpacer before = true) : Approach before w := by
  obtain ⟨_, ⟨ws, rfl, hws⟩, stop, hstop, rfl⟩ := Language.mem_mul.1 h
  refine approach_of_strides hws hb fun before hb => ?_
  rcases hstop with rfl | rfl
  · exact .done
  · exact .not hb .done

/-- Behind white space or `(` a run may begin with `NOT`; elsewhere it is empty or begins with white
space or `(`. -/
theorem mem_runs_of_approach {before : Char} {w : List Char} (h : Approach before w) :
    (isSpacer before = true → w ∈ runs) ∧
      (isSpacer before = false → w = [] ∨ ∃ c v, isSpacer c = true ∧ w = c :: v ∧ v ∈ runs) := by
  induction h with
  | done => exact ⟨fun _ => nil_mem_runs, fun _ => .inl rfl⟩
  | spacer hc _ ih =>
    have hv := ih.1 hc
    exact ⟨fun _ => append_mem_runs (spacer_mem_strides hc) hv, fun _ => .inr ⟨_, _, hc, rfl, hv⟩⟩
  | not hb _ ih =>
    refine ⟨fun _ => ?_, fun hb' => absurd hb (by simp [hb'])⟩
    rcases ih.2 (by decide) with rfl | ⟨c, v, hc, rfl, hv⟩
    · exact not_mem_runs
    · exact append_mem_runs (not_spacer_mem_strides hc) hv

/-! ## The pattern and the rule -/

theorem mem_keywords_iff {k : List Char} :
    k ∈ keywords ↔ ∃ last, Separator k last ∧ isSpacer last = false := by
  constructor
  · intro hk
    rcases List.mem_cons.1 hk with rfl | hk
    · exact ⟨'R', .or, by decide⟩
    · obtain rfl := List.mem_singleton.1 hk
      exact ⟨'D', .and, by decide⟩
  · rintro ⟨last, hk, hlast⟩
    cases hk with
    | and => exact List.mem_cons_of_mem _ List.mem_cons_self
    | or => exact List.mem_cons_self
    | blank hc => simp [isSpacer_of_isBlank hc] at hlast

/-- The words of `glued` and `spaced`. -/
def bridges (names : List (List Char)) : Language Char :=
  keywords * openings names +
    (keywords * letters isSpacer + letters isBlank) * (runs * openings names)

/-- The branches of the pattern are the bridges of the rule. -/
theorem mem_bridges_iff {names : List (List Char)} {w : List Char} :
    w ∈ bridges names ↔ Bridge names w := by
  constructor
  · rintro (hw | hw)
    · obtain ⟨k, hk, opening, ho, rfl⟩ := Language.mem_mul.1 hw
      obtain ⟨last, hs, -⟩ := mem_keywords_iff.1 hk
      exact ⟨k, last, [], opening, hs, .done, ho, by simp⟩
    · obtain ⟨gap, hgap, _, hrun, rfl⟩ := Language.mem_mul.1 hw
      obtain ⟨items, hi, opening, ho, rfl⟩ := Language.mem_mul.1 hrun
      rcases hgap with hgap | ⟨c, hc, rfl⟩
      · obtain ⟨k, hk, _, ⟨c, hc, rfl⟩, rfl⟩ := Language.mem_mul.1 hgap
        obtain ⟨last, hs, -⟩ := mem_keywords_iff.1 hk
        exact ⟨k, last, c :: items, opening, hs, .spacer hc (approach_of_mem_runs hi hc), ho,
          by simp⟩
      · have hi' := approach_of_mem_runs hi (isSpacer_of_isBlank hc)
        exact ⟨[c], c, items, opening, .blank hc, hi', ho, by simp⟩
  · rintro ⟨separator, last, items, opening, hs, hi, ho, rfl⟩
    have hruns := mem_runs_of_approach hi
    by_cases hlast : isSpacer last = true
    · refine .inr ?_
      have hgap : separator ∈ letters isBlank := by
        cases hs with
        | and => cases hlast
        | or => cases hlast
        | blank hc => exact ⟨_, hc, rfl⟩
      rw [List.append_assoc]
      exact Language.append_mem_mul (.inr hgap) (Language.append_mem_mul (hruns.1 hlast) ho)
    · have hlast := Bool.eq_false_iff.2 hlast
      have hk := mem_keywords_iff.2 ⟨last, hs, hlast⟩
      rcases hruns.2 hlast with rfl | ⟨c, v, hc, rfl, hv⟩
      · rw [List.append_nil]
        exact .inl (Language.append_mem_mul hk ho)
      · have hgap : separator ++ [c] ∈ keywords * letters isSpacer :=
          Language.append_mem_mul hk ⟨c, hc, rfl⟩
        have hrest : v ++ opening ∈ runs * openings names := Language.append_mem_mul hv ho
        have hw : separator ++ c :: v ++ opening = separator ++ [c] ++ (v ++ opening) := by simp
        rw [hw]
        exact .inr (Language.append_mem_mul (.inl hgap) hrest)

theorem reads_branches {names : List (List Char)} (h : names ≠ []) :
    Reads (.alt (glued names) (spaced names)) (bridges names) := by
  have hgap := (reads_keyword.seq reads_spacer.sequence_singleton).alt
    (reads_chars .blank).sequence_singleton
  have hspaced := hgap.seq <| reads_strides.star.seq <|
    (reads_literal ['N', 'O', 'T']).optional.seq <| reads_start h
  rw [← mul_assoc strides∗] at hspaced
  exact (reads_keyword.seq (reads_start h)).alt hspaced

/-- The pattern matches from a place on exactly when a `]` stands there and the text behind it
satisfies the rule. -/
theorem startsAt_pattern_iff {names : List (List Char)} (h : names ≠ []) {pre cs : List Char} :
    (pattern names).StartsAt pre cs ↔ ∃ post, cs = ']' :: post ∧ Continues names post := by
  -- behind the bracket and the run of trailers the text is down to `rest`
  have hskip (trail rest : List Char) :
      ((Place.mk pre.getLast? ([']'] ++ (trail ++ rest))).skip [']'] |>.skip trail).rest = rest := by
    simp
  constructor
  · rintro ⟨_, _, hbracket, _, htrail, p, hbranch, -⟩
    obtain ⟨_, rfl, ⟨post, rfl⟩, rfl⟩ := (reads_only ']' _ _).1 hbracket
    obtain ⟨trail, ht, ⟨rest, hrest⟩, rfl⟩ := (reads_trail _ _).1 htrail
    obtain rfl : trail ++ rest = post := hrest
    refine ⟨_, rfl, trail, rest, rfl, mem_kstar_letters.1 ht, ?_⟩
    rcases hbranch with ⟨_, ⟨hend, -⟩, -⟩ | hbranch
    · rw [hskip] at hend
      exact .inl (by simpa [Anchor.holds] using hend)
    · obtain ⟨w, hw, hpre, -⟩ := (reads_branches h _ _).1 hbranch
      rw [hskip] at hpre
      exact .inr ⟨w, mem_bridges_iff.1 hw, hpre⟩
  · rintro ⟨_, rfl, trail, rest, rfl, htrail, hrest⟩
    have hbranch : ∃ p, (anyOf [sequence [.anchor .textEnd], glued names, spaced names]).Spans
        ((Place.mk pre.getLast? ([']'] ++ (trail ++ rest))).skip [']'] |>.skip trail) p := by
      rcases hrest with rfl | ⟨w, hw, hpre⟩
      · refine ⟨_, .inl ⟨_, ⟨?_, rfl⟩, rfl⟩⟩
        rw [hskip]
        rfl
      · refine ⟨_, .inr ((reads_branches h _ _).2 ⟨w, mem_bridges_iff.2 hw, ?_, rfl⟩)⟩
        rwa [hskip]
    obtain ⟨p, hbranch⟩ := hbranch
    refine ⟨p, _, (reads_only ']' _ _).2 ⟨_, rfl, ⟨_, rfl⟩, rfl⟩, _, ?_, p, hbranch, rfl⟩
    exact (reads_trail _ _).2 ⟨trail, mem_kstar_letters.2 htrail, ⟨rest, rfl⟩, rfl⟩

end Terminator

/-- The pattern that a `]` and what follows it are searched for. The limit on the size of a compiled pattern,
which refuses very many or very long field names, is not modelled. -/
def FieldSet.terminator (fields : FieldSet) : Regex := Terminator.pattern fields.starts

example : some (FieldSet.ofList ["a", "tag:b", ""]).terminator = Regex.parse? {} ("\\][\\s)]*(?:$|" ++
    "(?:OR|AND)\\[(?:a|tag:b|)[!=~$^*/]?=|(?:(?:OR|AND)[\\s(]|\\s)(?:[\\s(]|NOT[\\s(])*(?:NOT)?" ++
    "\\[(?:a|tag:b|)[!=~$^*/]?=)").toList := by
  decide +kernel

/-- The alternation of no names is that of the empty name. -/
example : FieldSet.empty.terminator = (FieldSet.ofList [""]).terminator := rfl

/-! ## The end of a condition -/

/-- The byte offsets in a text at which a match of the pattern starts. -/
def Regex.matchStarts (r : Regex) (text : String) : Set Nat :=
  {n | ∃ pre post, text.toList = pre ++ post ∧ r.StartsAt pre post ∧
    n = (String.ofList pre).utf8ByteSize}

/-- The byte offsets in a text of the `]` behind which the rule holds. -/
def Boundary.closingOffsets (names : List (List Char)) (text : String) : Set Nat :=
  {n | ∃ pre post, text.toList = pre ++ ']' :: post ∧ Continues names post ∧
    n = (String.ofList pre).utf8ByteSize}

/-- A part at the front has no more bytes than the whole. -/
theorem utf8ByteSize_le_of_prefix {v w : List Char} (h : v <+: w) :
    (String.ofList v).utf8ByteSize ≤ (String.ofList w).utf8ByteSize := by
  obtain ⟨u, rfl⟩ := h
  rw [String.ofList_append, String.utf8ByteSize_append]
  exact Nat.le_add_right _ _

/-- The value that `cut?` finds ends at the least of the offsets. -/
theorem isLeast_of_cut? {names : List (List Char)} {text : String} {value rest : List Char}
    (h : cut? names text.toList = some (value, rest)) :
    IsLeast (closingOffsets names text) (String.ofList value).utf8ByteSize := by
  obtain ⟨htext, hcont, hfirst⟩ := cut?_eq_some_iff.1 h
  refine ⟨⟨value, rest, htext, hcont, rfl⟩, ?_⟩
  rintro _ ⟨pre, post, htext', hpost, rfl⟩
  rw [htext] at htext'
  rcases List.append_eq_append_iff.1 htext' with ⟨u, rfl, -⟩ | ⟨u, rfl, hu⟩
  · exact utf8ByteSize_le_of_prefix (List.prefix_append value u)
  · cases u with
    | nil => simp
    | cons c u =>
      -- an earlier closing bracket would lie within the value
      obtain ⟨rfl, rfl⟩ := List.cons.inj hu
      exact absurd hpost (hfirst pre u rfl)

/-- The end that is found is the least one by the rule. -/
theorem conditionEnd?_eq_some_iff {fields : FieldSet} {text : String} {n : Nat} :
    fields.conditionEnd? text = some n ↔ IsLeast (closingOffsets fields.starts text) n := by
  unfold FieldSet.conditionEnd?
  cases hcut : cut? fields.starts text.toList with
  | none =>
    simp only [Option.map_none, reduceCtorEq, false_iff]
    rintro ⟨⟨pre, post, htext, hpost, -⟩, -⟩
    exact cut?_eq_none_iff.1 hcut pre post htext hpost
  | some found =>
    obtain ⟨value, rest⟩ := found
    have hleast := isLeast_of_cut? hcut
    rw [Option.map_some, Option.some_inj]
    exact ⟨fun h => h ▸ hleast, hleast.unique⟩

theorem conditionEnd?_eq_none_iff {fields : FieldSet} {text : String} :
    fields.conditionEnd? text = none ↔ closingOffsets fields.starts text = ∅ := by
  rw [FieldSet.conditionEnd?, Option.map_eq_none_iff, cut?_eq_none_iff, Set.eq_empty_iff_forall_notMem]
  constructor
  · rintro h n ⟨pre, post, htext, hpost, -⟩
    exact h pre post htext hpost
  · rintro h pre post htext hpost
    exact h _ ⟨pre, post, htext, hpost, rfl⟩

/-- The pattern starts a match at the ends by the rule. -/
theorem matchStarts_terminator (fields : FieldSet) (text : String) :
    fields.terminator.matchStarts text = closingOffsets fields.starts text := by
  ext n
  constructor
  · rintro ⟨pre, _, htext, hstart, rfl⟩
    obtain ⟨post, rfl, hpost⟩ := (Terminator.startsAt_pattern_iff (fields.starts_ne_nil)).1 hstart
    exact ⟨pre, post, htext, hpost, rfl⟩
  · rintro ⟨pre, post, htext, hpost, rfl⟩
    refine ⟨pre, _, htext, ?_, rfl⟩
    exact (Terminator.startsAt_pattern_iff (fields.starts_ne_nil)).2 ⟨post, rfl, hpost⟩

/-- **The end of a condition.** It is the first `]` behind which the rule holds, and so the start of
the leftmost match of the pattern, which accepts the same continuations as the rule. -/
theorem conditionEnd?_isLeast (fields : FieldSet) (hknown : fields.names ≠ []) (text : String) :
    (∀ n, fields.conditionEnd? text = some n ↔
      IsLeast (closingOffsets (fields.names.map String.toList) text) n) ∧
    (fields.conditionEnd? text = none ↔
      closingOffsets (fields.names.map String.toList) text = ∅) ∧
    (∀ n, fields.conditionEnd? text = some n ↔ IsLeast (fields.terminator.matchStarts text) n) ∧
    (fields.conditionEnd? text = none ↔ fields.terminator.matchStarts text = ∅) ∧
    ∀ pre post, fields.terminator.StartsAt pre (']' :: post) ↔
      Continues (fields.names.map String.toList) post := by
  rw [matchStarts_terminator, ← FieldSet.starts_of_ne_nil hknown]
  refine ⟨fun n => conditionEnd?_eq_some_iff, conditionEnd?_eq_none_iff,
    fun n => conditionEnd?_eq_some_iff, conditionEnd?_eq_none_iff, fun pre post => ?_⟩
  rw [FieldSet.terminator, Terminator.startsAt_pattern_iff (fields.starts_ne_nil)]
  simp

/-- In `[a=x] NOTAND [b=y]] NOT ([b=z]` the third bracket is the first closing one. -/
theorem conditionEnd?_isLeast_third_bracket :
    (FieldSet.ofList ["a", "b"]).names ≠ [] ∧
      (FieldSet.ofList ["a", "b"]).conditionEnd? "a=x] NOTAND [b=y]] NOT ([b=z]" = some 17 ∧
      IsLeast (closingOffsets ((FieldSet.ofList ["a", "b"]).names.map String.toList)
        "a=x] NOTAND [b=y]] NOT ([b=z]") 17 := by
  have hknown : (FieldSet.ofList ["a", "b"]).names ≠ [] := by decide
  have hend : (FieldSet.ofList ["a", "b"]).conditionEnd? "a=x] NOTAND [b=y]] NOT ([b=z]" =
      some 17 := by decide +kernel
  exact ⟨hknown, hend, ((conditionEnd?_isLeast _ hknown _).1 17).1 hend⟩

end SlotQuery
