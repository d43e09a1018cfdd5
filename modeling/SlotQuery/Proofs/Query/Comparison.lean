import Mathlib.Data.Bool.AllAny
import SlotQuery.Proofs.Query.Split
import SlotQuery.Proofs.Regex.Quotation
import SlotQuery.Proofs.Regex.Search

/-!
# What comparisons mean

`Operator.Means` says without patterns what an operator asks of the value and the content of a field.
The pattern that the operator makes of the value finds exactly that (`found_iff_means`), and it is the
pattern that is written with the value quoted (`Operator.source`), so no character of a value has a
meaning of its own. Main statement: `Condition.accepts_iff_means`.
-/

open scoped Computability

namespace SlotQuery

open Text Regex

/-- The characters, each folded. -/
def folded (cs : List Char) : List Char := cs.map fold

/-- The flags of the patterns of conditions. -/
def Operator.flags : Regex.Flags := { foldCase := true, dotAll := true }

/-- What an operator asks of a value and the content of a field. -/
def Operator.Means (value content : List Char) : Operator → Prop
  | equals => folded content = folded value
  | notEquals => folded content ≠ folded value
  | startsWith => folded value <+: folded content
  | endsWith => folded value <:+ folded content
  | contains => folded value <:+: folded content
  | word => ∃ x m y, content = x ++ m ++ y ∧ folded m = folded value ∧
      (∀ c ∈ x.getLast?, isBlank c = true) ∧ ∀ c ∈ y.head?, isBlank c = true
  | pattern => ∃ r, Regex.parse? Operator.flags value = some r ∧
      ∃ pre post, content = pre ++ post ∧ r.StartsAt pre post

/-- `(?:^|\s)` -/
def Operator.wordStart : List Char := ['(', '?', ':', '^', '|', '\\', 's', ')']

/-- `(?:\s|$)` -/
def Operator.wordStop : List Char := ['(', '?', ':', '\\', 's', '|', '$', ')']

/-- The written form of the pattern that an operator makes of a value. -/
def Operator.source (value : List Char) : Operator → List Char
  | equals | notEquals => ['^'] ++ (quote value ++ ['$'])
  | startsWith => ['^'] ++ quote value
  | endsWith => quote value ++ ['$']
  | contains => quote value
  | word => wordStart ++ (quote value ++ wordStop)
  | pattern => value

/-! ## Where patterns match -/

section StartsAt

variable {r s : Regex} {L : Language Char} {pre post : List Char}

theorem Regex.Reads.startsAt_iff (h : Reads r L) :
    r.StartsAt pre post ↔ ∃ m y, post = m ++ y ∧ m ∈ L := by
  constructor
  · rintro ⟨q, hq⟩
    obtain ⟨m, hm, ⟨y, hy⟩, -⟩ := (h _ q).1 hq
    exact ⟨m, y, hy.symm, hm⟩
  · rintro ⟨m, y, rfl, hm⟩
    exact ⟨_, (h _ _).2 ⟨m, hm, List.prefix_append m y, rfl⟩⟩

/-- What reads a language is read first, and the rest of the pattern behind it. -/
theorem Regex.Reads.startsAt_seq_iff (h : Reads r L) :
    (Regex.seq r s).StartsAt pre post ↔
      ∃ m y, post = m ++ y ∧ m ∈ L ∧ s.StartsAt (pre ++ m) y := by
  have hskip (m y : List Char) :
      (Place.mk pre.getLast? (m ++ y)).skip m = ⟨(pre ++ m).getLast?, y⟩ := by
    rw [Place.skip, List.getLast?_append, List.drop_left]
  constructor
  · rintro ⟨q, p, hp, hq⟩
    obtain ⟨m, hm, ⟨y, hy⟩, rfl⟩ := (h _ p).1 hp
    obtain rfl : m ++ y = post := hy
    rw [hskip] at hq
    exact ⟨m, y, rfl, hm, q, hq⟩
  · rintro ⟨m, y, rfl, hm, q, hq⟩
    refine ⟨q, _, (h _ _).2 ⟨m, hm, List.prefix_append m y, rfl⟩, ?_⟩
    rwa [hskip]

theorem startsAt_textStart_seq_iff :
    (seq (anchor .textStart) s).StartsAt pre post ↔ pre = [] ∧ s.StartsAt pre post := by
  constructor
  · rintro ⟨q, p, ⟨hholds, rfl⟩, hq⟩
    exact ⟨by simpa [Anchor.holds] using hholds, q, hq⟩
  · rintro ⟨rfl, q, hq⟩
    exact ⟨q, _, ⟨rfl, rfl⟩, hq⟩

/-- The end of a text has nothing behind it. -/
theorem startsAt_textEnd_iff : (anchor .textEnd).StartsAt pre post ↔ post = [] := by
  constructor
  · rintro ⟨q, hholds, -⟩
    simpa [Anchor.holds] using hholds
  · rintro rfl
    exact ⟨_, rfl, rfl⟩

theorem startsAt_alt_iff :
    (alt r s).StartsAt pre post ↔ r.StartsAt pre post ∨ s.StartsAt pre post :=
  exists_or

theorem startsAt_alt_seq_iff {t : Regex} :
    (seq (alt r s) t).StartsAt pre post ↔
      (seq r t).StartsAt pre post ∨ (seq s t).StartsAt pre post := by
  constructor
  · rintro ⟨q, p, hp | hp, hq⟩
    · exact .inl ⟨q, p, hp, hq⟩
    · exact .inr ⟨q, p, hp, hq⟩
  · rintro (⟨q, p, hp, hq⟩ | ⟨q, p, hp, hq⟩)
    · exact ⟨q, p, .inl hp, hq⟩
    · exact ⟨q, p, .inr hp, hq⟩

end StartsAt

/-! ## Values -/

/-- The texts equal to `w` up to case. -/
def alikes (w : List Char) : Language Char := {m | folded m = folded w}

/-- A literal in any case reads the texts that fold to the same. -/
theorem reads_alike (w : List Char) : Reads (literal true w) (alikes w) := by
  induction w with
  | nil =>
    have hnil : alikes [] = 1 := Language.ext fun m => by
      rw [Language.mem_one]
      exact List.map_eq_nil_iff
    exact hnil ▸ reads_empty
  | cons c w ih =>
    have hcons : alikes (c :: w) = letters (CharSet.alike c).contains * alikes w := by
      ext m
      rw [Language.mem_mul]
      constructor
      · intro hm
        obtain ⟨d, u, rfl, hd, hu⟩ := List.map_eq_cons_iff.1 hm
        exact ⟨[d], ⟨d, beq_iff_eq.2 hd, rfl⟩, u, hu, rfl⟩
      · rintro ⟨_, ⟨d, hd, rfl⟩, u, hu, rfl⟩
        exact List.map_eq_cons_iff.2 ⟨d, u, rfl, beq_iff_eq.1 hd, hu⟩
    exact hcons ▸ (reads_chars (.alike c)).seq ih

theorem ordered_literal (foldCase : Bool) (w : List Char) : (literal foldCase w).Ordered := by
  induction w with
  | nil => trivial
  | cons c w ih => exact ⟨trivial, ih⟩

theorem reads_blank : Reads (chars .blank) (letters isBlank) := reads_chars .blank

/-- White space, or the end of the text. -/
theorem startsAt_wordStop_iff {pre post : List Char} :
    (alt (chars .blank) (anchor .textEnd)).StartsAt pre post ↔
      ∀ c ∈ post.head?, isBlank c = true := by
  rw [startsAt_alt_iff, reads_blank.startsAt_iff, startsAt_textEnd_iff]
  constructor
  · rintro (⟨_, y, rfl, c, hc, rfl⟩ | rfl)
    · simpa using hc
    · simp
  · intro h
    cases post with
    | nil => exact .inr rfl
    | cons c y => exact .inl ⟨[c], y, rfl, c, h c rfl, rfl⟩

/-- The start of the text, or white space. -/
theorem startsAt_wordStart_iff {s : Regex} {content : List Char} :
    (∃ pre post, content = pre ++ post ∧
        (seq (alt (anchor .textStart) (chars .blank)) s).StartsAt pre post) ↔
      ∃ x y, content = x ++ y ∧ (∀ c ∈ x.getLast?, isBlank c = true) ∧ s.StartsAt x y := by
  simp only [startsAt_alt_seq_iff, startsAt_textStart_seq_iff, reads_blank.startsAt_seq_iff]
  constructor
  · rintro ⟨pre, post, rfl, ⟨rfl, hs⟩ | ⟨_, y, rfl, ⟨c, hc, rfl⟩, hs⟩⟩
    · exact ⟨[], post, rfl, by simp, hs⟩
    · exact ⟨pre ++ [c], y, by simp, by simpa using hc, hs⟩
  · rintro ⟨x, y, rfl, hx, hs⟩
    -- the white space is the last character of `x`
    rcases List.eq_nil_or_concat x with rfl | ⟨pre, c, rfl⟩
    · exact ⟨[], y, rfl, .inl ⟨rfl, hs⟩⟩
    · rw [List.concat_eq_append] at hx hs ⊢
      refine ⟨pre, [c] ++ y, by simp, .inr ⟨[c], y, rfl, ⟨c, ?_, rfl⟩, hs⟩⟩
      exact hx c (by simp)

/-! ## Operators -/

section Means

variable {op : Operator} {value : String} {r : Regex} {content : List Char}

/-- No pattern made for a value asks for more than order. -/
theorem Operator.ordered_of_matcher? (hop : op ≠ .pattern) (h : op.matcher? value = some r) :
    r.Ordered := by
  have hv := ordered_literal true value.toList
  cases op with
  | equals | notEquals =>
    cases h
    exact ⟨trivial, hv, trivial⟩
  | word =>
    cases h
    exact ⟨⟨trivial, trivial⟩, hv, trivial, trivial⟩
  | endsWith =>
    cases h
    exact ⟨hv, trivial⟩
  | startsWith =>
    cases h
    exact ⟨trivial, hv⟩
  | contains =>
    cases h
    exact hv
  | pattern => exact absurd rfl hop

/-- Wherever the pattern of an operator matches, the operator holds, `!` aside. -/
theorem Operator.startsAt_iff_means (hop : op ≠ .pattern) (h : op.matcher? value = some r) :
    (∃ pre post, content = pre ++ post ∧ r.StartsAt pre post) ↔
      (if op = .notEquals then Operator.equals else op).Means value.toList content := by
  have hv := reads_alike value.toList
  cases op with
  | equals | notEquals =>
    cases h
    simp only [startsAt_textStart_seq_iff, hv.startsAt_seq_iff, startsAt_textEnd_iff]
    constructor
    · rintro ⟨_, _, rfl, rfl, m, _, rfl, hm, rfl⟩
      rw [List.nil_append, List.append_nil]
      exact hm
    · intro hm
      exact ⟨[], content, rfl, rfl, content, [], by simp, hm, rfl⟩
  | startsWith =>
    cases h
    simp only [startsAt_textStart_seq_iff, hv.startsAt_iff]
    constructor
    · rintro ⟨_, _, rfl, rfl, m, y, rfl, hm⟩
      exact List.prefix_map_iff.2 ⟨m, List.prefix_append m y, hm.symm⟩
    · intro hprefix
      obtain ⟨m, ⟨y, rfl⟩, hm⟩ := List.prefix_map_iff.1 hprefix
      exact ⟨[], _, rfl, rfl, m, y, rfl, hm.symm⟩
  | endsWith =>
    cases h
    simp only [hv.startsAt_seq_iff, startsAt_textEnd_iff]
    constructor
    · rintro ⟨x, _, rfl, m, _, rfl, hm, rfl⟩
      exact List.suffix_map_iff.2 ⟨m, by simp, hm.symm⟩
    · intro hsuffix
      obtain ⟨m, ⟨x, rfl⟩, hm⟩ := List.suffix_map_iff.1 hsuffix
      exact ⟨x, m, rfl, m, [], by simp, hm.symm, rfl⟩
  | contains =>
    cases h
    simp only [hv.startsAt_iff]
    constructor
    · rintro ⟨x, _, rfl, m, y, rfl, hm⟩
      exact List.infix_map_iff.2 ⟨m, ⟨x, y, by simp⟩, hm.symm⟩
    · intro hinfix
      obtain ⟨m, ⟨x, y, rfl⟩, hm⟩ := List.infix_map_iff.1 hinfix
      exact ⟨x, m ++ y, by simp, m, y, rfl, hm.symm⟩
  | word =>
    cases h
    rw [startsAt_wordStart_iff]
    simp only [hv.startsAt_seq_iff, startsAt_wordStop_iff]
    constructor
    · rintro ⟨x, _, rfl, hx, m, y, rfl, hm, hy⟩
      exact ⟨x, m, y, by simp, hm, hx, hy⟩
    · rintro ⟨x, m, y, rfl, hm, hx, hy⟩
      exact ⟨x, m ++ y, by simp, hx, m, y, rfl, hm, hy⟩
  | pattern => exact absurd rfl hop

/-- What is found is what the comparison means. -/
theorem Operator.found_iff_means (hop : op ≠ .pattern) (h : op.matcher? value = some r) :
    op.verdict (r.foundIn content) = true ↔ op.Means value.toList content := by
  have hfound : r.foundIn content = true ↔ _ :=
    (foundIn_iff (op.ordered_of_matcher? hop h)).trans (op.startsAt_iff_means hop h)
  cases op with
  | notEquals =>
    rw [if_pos rfl] at hfound
    rw [show verdict .notEquals (r.foundIn content) = !r.foundIn content from rfl, Bool.not_eq_true',
      ← Bool.not_eq_true, hfound]
    rfl
  | equals | word | endsWith | startsWith | contains => exact hfound
  | pattern => exact absurd rfl hop

/-! ## Written patterns -/

/-- A row of patterns can be cut in two anywhere. -/
theorem spans_sequence_append {rs ss : List Regex} {p q : Place} :
    (Regex.sequence (rs ++ ss)).Spans p q ↔
      ∃ o, (Regex.sequence rs).Spans p o ∧ (Regex.sequence ss).Spans o q := by
  induction rs generalizing p with
  | nil => simp [Regex.sequence, Spans]
  | cons r rs ih =>
    have hcons (ts : List Regex) : Regex.sequence (r :: ts) = seq r (Regex.sequence ts) := rfl
    rw [List.cons_append, hcons, hcons]
    simp only [Spans, ih]
    constructor
    · rintro ⟨o, ho, o', ho', hq⟩
      exact ⟨o', ⟨o, ho, ho'⟩, hq⟩
    · rintro ⟨o', ⟨o, ho, ho'⟩, hq⟩
      exact ⟨o, ho, o', ho', hq⟩

theorem spans_sequence_singleton {p q : Place} : (Regex.sequence [r]).Spans p q ↔ r.Spans p q := by
  simp [Regex.sequence, Spans]

theorem ordered_sequence {rs : List Regex} : (Regex.sequence rs).Ordered ↔ ∀ r ∈ rs, r.Ordered := by
  induction rs with
  | nil => simp [Regex.sequence, Ordered]
  | cons r rs ih =>
    rw [List.forall_mem_cons, ← ih]
    rfl

/-- The items of the written pattern. -/
def Operator.items (value : List Char) : Operator → List Regex
  | equals | notEquals => [anchor .textStart] ++ (literals ++ [anchor .textEnd])
  | startsWith => [anchor .textStart] ++ literals
  | endsWith => literals ++ [anchor .textEnd]
  | contains => literals
  | word => [alt (Regex.sequence [anchor .textStart]) (Regex.sequence [chars .blank])] ++
      (literals ++ [alt (Regex.sequence [chars .blank]) (Regex.sequence [anchor .textEnd])])
  | pattern => []
where
  /-- The characters of the value, in either case. -/
  literals : List Regex := value.map fun c => chars (.literal true c)

/-- The written form of a comparison spells its parts. -/
theorem Operator.spells_source (hop : op ≠ .pattern) (value : List Char) :
    Spells flags (op.source value) (op.items value) := by
  have hstart : Spells flags ['^'] [anchor .textStart] :=
    spells_item rfl (List.cons_ne_nil _ _) fun _ => rfl
  have hstop : Spells flags ['$'] [anchor .textEnd] :=
    spells_item rfl (List.cons_ne_nil _ _) fun _ => rfl
  have hvalue : Spells flags (quote value) (items.literals value) := spells_quote rfl value
  cases op with
  | equals | notEquals => exact hstart.append (hvalue.append hstop)
  | startsWith => exact hstart.append hvalue
  | endsWith => exact hvalue.append hstop
  | contains => exact hvalue
  | word =>
    -- a group is read in one step, by a parser of its own
    have hleft : Spells flags wordStart
        [alt (Regex.sequence [anchor .textStart]) (Regex.sequence [chars .blank])] :=
      fun fuel _ _ _ => ⟨fuel + 7, Nat.le_add_right fuel 7, rfl⟩
    have hright : Spells flags wordStop
        [alt (Regex.sequence [chars .blank]) (Regex.sequence [anchor .textEnd])] :=
      fun fuel _ _ _ => ⟨fuel + 7, Nat.le_add_right fuel 7, rfl⟩
    exact hleft.append (hvalue.append hright)
  | pattern => exact absurd rfl hop

theorem Operator.spans_items_iff (hop : op ≠ .pattern) (h : op.matcher? value = some r) (p q : Place) :
    (Regex.sequence (op.items value.toList)).Spans p q ↔ r.Spans p q := by
  cases op with
  | equals | notEquals | startsWith | endsWith | contains =>
    cases h
    simp only [items, spans_sequence_append, spans_sequence_singleton]
    rfl
  | word =>
    cases h
    simp only [items, spans_sequence_append, spans_sequence_singleton, Spans]
    rfl
  | pattern => exact absurd rfl hop

theorem Operator.ordered_items (hop : op ≠ .pattern) (value : List Char) :
    (Regex.sequence (op.items value)).Ordered := by
  have hvalue : ∀ r ∈ items.literals value, r.Ordered :=
    ordered_sequence.1 (ordered_literal true value)
  rw [ordered_sequence]
  cases op with
  | equals | notEquals | startsWith | endsWith | contains | word =>
    simpa [items, Ordered, or_imp, forall_and, Regex.sequence] using hvalue
  | pattern => exact absurd rfl hop

/-- The written pattern is read, and finds what the operator's own pattern finds. -/
theorem Operator.parse?_source (hop : op ≠ .pattern) (h : op.matcher? value = some r) :
    ∃ s, Regex.parse? flags (op.source value.toList) = some s ∧
      ∀ content, s.foundIn content = r.foundIn content := by
  refine ⟨_, (op.spells_source hop value.toList).parse?_eq rfl, fun content => ?_⟩
  rw [Bool.eq_iff_iff, foundIn_iff (op.ordered_items hop value.toList),
    foundIn_iff (op.ordered_of_matcher? hop h)]
  simp only [StartsAt, op.spans_items_iff hop h]

end Means

/-! ## Main statement -/

/-- **Comparisons mean what they say.** With any operator but `/`, a condition can be made of any field
and any value. Its pattern finds what the written pattern does, where the value is quoted. And it accepts
a candidate exactly if the operator holds of the value and the content of the field, the empty text where
the candidate has no such field. -/
theorem Condition.accepts_iff_means (field value : String) {op : Operator} (hop : op ≠ .pattern) :
    ∃ c, Condition.make field op value = .ok c ∧
      (∃ r, Regex.parse? Operator.flags (op.source value.toList) = some r ∧
        ∀ content, r.foundIn content = c.matcher.foundIn content) ∧
      ∀ candidate : Attributes, c.accepts candidate = true ↔
        op.Means value.toList ((candidate.get? field).getD "").toList := by
  obtain ⟨r, hr⟩ : ∃ r, op.matcher? value = some r := by
    cases op with
    | pattern => exact absurd rfl hop
    | _ => exact ⟨_, rfl⟩
  let c : Condition := ⟨field, op, value, r, hr⟩
  refine ⟨c, c.make_self, op.parse?_source hop hr, fun candidate => ?_⟩
  exact op.found_iff_means hop hr

/-- A Kelvin sign in the value finds the letter in the field; the dot behind it finds only a dot, and a
line feed ends the word. -/
theorem Condition.accepts_iff_means_kelvin_dot :
    ∃ c, Condition.make "a" .word "\u212a." = .ok c ∧
      Operator.word.source ['\u212a', '.'] =
        Operator.wordStart ++ ['\u212a', '\\', '.'] ++ Operator.wordStop ∧
      c.accepts (TextMap.ofList [("a", "0 k.\n")]) = true ∧
      c.accepts (TextMap.ofList [("a", "0 kb\n")]) = false ∧
      c.accepts TextMap.empty = false := by
  have hop : Operator.word ≠ .pattern := by decide
  obtain ⟨c, hc, -, haccepts⟩ := Condition.accepts_iff_means "a" "\u212a." hop
  -- the word has a dot, which a content without one cannot give
  have hdot (candidate : Attributes)
      (h : ∀ d ∈ ((candidate.get? "a").getD "").toList, fold d ≠ '.') :
      c.accepts candidate = false := by
    rw [← Bool.not_eq_true, haccepts]
    rintro ⟨x, m, y, hcontent, hm, -, -⟩
    have hmem : '.' ∈ folded m := by
      rw [hm]
      decide +kernel
    obtain ⟨d, hd, hfold⟩ := List.mem_map.1 hmem
    refine h d ?_ hfold
    rw [hcontent]
    exact List.mem_append_left y (List.mem_append_right x hd)
  refine ⟨c, hc, rfl, (haccepts _).2 ?_, hdot _ ?_, hdot _ ?_⟩
  · refine ⟨['0', ' '], ['k', '.'], ['\n'], by decide +kernel, by decide +kernel, ?_, ?_⟩
    · rintro c ⟨⟩
      rfl
    · rintro c ⟨⟩
      rfl
  · exact List.all_iff_forall_prop.1 (by decide +kernel)
  · exact List.all_iff_forall_prop.1 (by decide +kernel)

end SlotQuery
