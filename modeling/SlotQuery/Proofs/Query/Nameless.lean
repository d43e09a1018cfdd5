import SlotQuery.Proofs.Query.Joints
import SlotQuery.Proofs.Query.Juxtaposition
import SlotQuery.Proofs.Query.Recognition
import SlotQuery.Proofs.Query.Terminator

/-!
# Conditions without a known field

With no known field there is no name that a condition could start with. The alternation of no names reads
the empty text, though, so the look-ahead takes a bare comparison, `[=` or `[*=`, for the start of a
condition. A `]` is a closing one if only white space and `)` follow it, or if it leads to such a
comparison (`closingOffsets_nil`). The second kind always stands in front of the first
(`lt_of_mem_namelessOffsets`), and where it does not occur, a text has one condition at most. Main
statement: `conditionEnd?_empty`.
-/

namespace SlotQuery

open Text Boundary Token

namespace Boundary

variable {names : List (List Char)} {w pre post : List Char} {text : String} {m n : Nat}

/-- The byte offsets in a text of the `]` that only white space and `)` follow. -/
def finalOffsets (text : String) : Set Nat :=
  {n | ∃ pre post, text.toList = pre ++ ']' :: post ∧ (∀ c ∈ post, isTrailer c = true) ∧
    n = (String.ofList pre).utf8ByteSize}

/-- The byte offsets in a text of the `]` behind which, past white space and `)`, a bridge leads to the
start of a condition with no name in front of its comparison. -/
def namelessOffsets (text : String) : Set Nat :=
  {n | ∃ pre trail w rest, text.toList = pre ++ ']' :: (trail ++ (w ++ rest)) ∧
    (∀ c ∈ trail, isTrailer c = true) ∧ Bridge [[]] w ∧ n = (String.ofList pre).utf8ByteSize}

/-! ## Two kinds of closing brackets -/

theorem closingOffsets_nil (text : String) :
    closingOffsets [[]] text = finalOffsets text ∪ namelessOffsets text := by
  ext n
  constructor
  · rintro ⟨pre, _, htext, ⟨trail, rest, rfl, htrail, hrest⟩, rfl⟩
    rcases hrest with rfl | ⟨w, hw, rest, rfl⟩
    · rw [List.append_nil] at htext
      exact .inl ⟨pre, trail, htext, htrail, rfl⟩
    · exact .inr ⟨pre, trail, w, rest, htext, htrail, hw, rfl⟩
  · rintro (⟨pre, post, htext, hpost, rfl⟩ | ⟨pre, trail, w, rest, htext, htrail, hw, rfl⟩)
    · exact ⟨pre, post, htext, Lexer.continues_of_trail hpost, rfl⟩
    · exact ⟨pre, _, htext, ⟨trail, _, rfl, htrail, .inr ⟨w, hw, List.prefix_append w rest⟩⟩, rfl⟩

theorem Bridge.bracketOpen_mem (h : Bridge names w) : '[' ∈ w := by
  obtain ⟨separator, last, items, opening, -, -, ⟨name, -, mark, -, rfl⟩, rfl⟩ := h
  simp

/-- A `]` that something with a `[` follows stands in front of one that only trailers follow. -/
theorem prefix_of_bracket_mem {pre' cs : List Char} (h : pre ++ ']' :: cs = pre' ++ ']' :: post)
    (hopen : '[' ∈ cs) (hpost : ∀ c ∈ post, isTrailer c = true) : pre ++ [']'] <+: pre' := by
  have hnot : '[' ∉ post := fun hmem => absurd (hpost _ hmem) (by decide)
  rcases List.append_eq_append_iff.1 h with ⟨u, rfl, hu⟩ | ⟨u, rfl, hu⟩
  · cases u with
    | nil =>
      obtain rfl := (List.cons.inj hu).2
      exact absurd hopen hnot
    | cons c u =>
      obtain rfl := (List.cons.inj hu).1
      exact ⟨u, by simp⟩
  · have hmem : '[' ∈ ']' :: post := by
      rw [hu]
      exact List.mem_append_right u (List.mem_cons_of_mem _ hopen)
    exact absurd ((List.mem_cons.1 hmem).resolve_left (by decide)) hnot

theorem lt_of_mem_namelessOffsets (hm : m ∈ namelessOffsets text) (hn : n ∈ finalOffsets text) :
    m < n := by
  obtain ⟨pre, trail, w, rest, htext, -, hw, rfl⟩ := hm
  obtain ⟨pre', post, htext', hpost, rfl⟩ := hn
  have hopen : '[' ∈ trail ++ (w ++ rest) :=
    List.mem_append_right trail (List.mem_append_left rest hw.bracketOpen_mem)
  have hle :=
    utf8ByteSize_le_of_prefix (prefix_of_bracket_mem (htext.symm.trans htext') hopen hpost)
  have hone : (String.ofList [']']).utf8ByteSize = 1 := by decide
  rw [String.ofList_append, String.utf8ByteSize_append, hone] at hle
  exact hle

/-- The first closing bracket of a text is the last `]` just when none leads to a bare comparison. -/
theorem namelessOffsets_eq_empty_iff {value rest : List Char}
    (h : cut? [[]] text.toList = some (value, rest)) :
    namelessOffsets text = ∅ ↔ ∀ c ∈ rest, isTrailer c = true := by
  obtain ⟨htext, ⟨trail, tail, rfl, htrail, htail⟩, -⟩ := cut?_eq_some_iff.1 h
  constructor
  · intro hnone
    rcases htail with rfl | ⟨w, hw, rest, rfl⟩
    · rwa [List.append_nil]
    · have hmem : (String.ofList value).utf8ByteSize ∈ namelessOffsets text :=
        ⟨value, trail, w, rest, htext, htrail, hw, rfl⟩
      rw [hnone] at hmem
      cases hmem
  · intro hrest
    rw [Set.eq_empty_iff_forall_notMem]
    intro m hm
    have hlt := lt_of_mem_namelessOffsets hm ⟨value, _, htext, hrest, rfl⟩
    have hleast := isLeast_of_cut? h
    rw [closingOffsets_nil] at hleast
    exact absurd hlt (Nat.not_lt.2 (hleast.2 (.inr hm)))

end Boundary

/-! ## Condition tokens -/

namespace Lexer

variable {names : List (List Char)} {cs w rest : List Char} {ts : List Token}

/-- Bare text has no condition tokens. -/
theorem Lexes.of_bare (hw : Bare w) (h : Lexes names (w ++ cs) ts) :
    ∃ pre us, ts = pre ++ us ∧ conditionTexts pre = [] ∧ Lexes names cs us := by
  induction hw generalizing ts with
  | nil => exact ⟨[], ts, rfl, rfl, h⟩
  | blank hc _ ih => exact ih (h.of_blank hc)
  | @keyword t w ht _ ih =>
    rw [List.append_assoc] at h
    obtain ⟨us, rfl, hus⟩ := h.of_token (readToken_keyword ht (w ++ cs))
    obtain ⟨pre, vs, rfl, hpre, hvs⟩ := ih hus
    refine ⟨t :: pre, vs, rfl, ?_, hvs⟩
    rcases mem_keywords.1 ht with rfl | rfl | rfl | rfl | rfl <;> exact hpre

theorem Lexes.isTrailer_of_closing (h : Lexes names cs ts) (hts : ∀ t ∈ ts, t = .groupClose) :
    ∀ c ∈ cs, isTrailer c = true := by
  induction h with
  | done => exact List.forall_mem_nil _
  | blank hc _ ih => exact List.forall_mem_cons.2 ⟨by simp [isTrailer, hc], ih hts⟩
  | token hread _ ih =>
    obtain ⟨rfl, hrest⟩ := List.forall_mem_cons.1 hts
    rw [readToken_eq hread]
    exact List.forall_mem_cons.2 ⟨rfl, ih hrest⟩

/-- Behind a closing bracket there is another condition unless only trailers follow. -/
theorem Lexes.conditionTexts_eq_nil_iff (h : Lexes names cs ts) (hcont : Continues names cs) :
    conditionTexts ts = [] ↔ ∀ c ∈ cs, isTrailer c = true := by
  constructor
  · intro hnone
    rcases tokens_of_continues hcont h with hclose | ⟨joint, b, us, rest, rfl, -⟩
    · exact h.isTrailer_of_closing hclose
    · simp at hnone
  · intro htrail
    rw [← List.append_nil cs] at h
    obtain ⟨closing, us, rfl, hclose, hus⟩ := h.of_trail htrail
    cases hus with
    | done =>
      rw [List.append_nil, conditionTexts, List.filterMap_eq_nil_iff]
      intro t ht
      rw [hclose t ht]
    | token hread _ => cases hread

theorem Lexes.of_bracket (h : Lexes names ('[' :: cs) ts) :
    ∃ b value rest us, ts = .condition b :: us ∧ cut? names cs = some (value, rest) ∧
      Lexes names rest us := by
  cases h with
  | blank hc _ => cases hc
  | @token _ rest t us hread h =>
    simp only [readToken] at hread
    split at hread
    · next value rest' hcut =>
      cases hread
      exact ⟨_, value, rest, us, rfl, hcut, h⟩
    · cases hread

theorem front_append_bracket (h : '[' ∉ w) (cs : List Char) : front (w ++ '[' :: cs) = w := by
  rw [front_append h, front_bracket, List.append_nil]

/-- The first bracket of a text is where it is. -/
theorem eq_of_append_bracket {w' cs' : List Char} (h : w ++ '[' :: cs = w' ++ '[' :: cs')
    (hw : '[' ∉ w) (hw' : '[' ∉ w') : cs = cs' := by
  have hfront := congrArg front h
  rw [front_append_bracket hw, front_append_bracket hw'] at hfront
  subst hfront
  exact (List.cons.inj (List.append_cancel_left h)).2

theorem Lexes.conditionTexts_of_notMem (h : Lexes names cs ts) (hopen : '[' ∉ cs) :
    conditionTexts ts = [] := by
  have hbare := h.bare_front
  have hfront := front_append hopen []
  rw [List.append_nil, show front [] = [] from rfl, List.append_nil] at hfront
  rw [hfront] at hbare
  rw [← List.append_nil cs] at h
  obtain ⟨pre, us, rfl, hpre, hus⟩ := h.of_bare hbare
  cases hus with
  | done => rwa [List.append_nil]
  | token hread _ => cases hread

/-- A text has no condition but the first just when no `]` behind its bracket leads to a bare comparison. -/
theorem Lexes.length_conditionTexts_append_bracket (h : Lexes [[]] (w ++ '[' :: cs) ts)
    (hw : '[' ∉ w) :
    (conditionTexts ts).length ≤ 1 ↔ namelessOffsets (String.ofList cs) = ∅ := by
  have hbare := h.bare_front
  rw [front_append_bracket hw] at hbare
  obtain ⟨pre, us, rfl, hpre, hus⟩ := h.of_bare hbare
  obtain ⟨b, value, rest, us, rfl, hcut, hus⟩ := hus.of_bracket
  rw [← String.toList_ofList (l := cs)] at hcut
  have hcount : (conditionTexts (pre ++ .condition b :: us)).length ≤ 1 ↔ conditionTexts us = [] := by
    simp [hpre]
  rw [hcount, hus.conditionTexts_eq_nil_iff (cut?_eq_some_iff.1 hcut).2.1,
    namelessOffsets_eq_empty_iff hcut]

/-- Without known fields a text has one condition at most, unless behind its first bracket a `]` leads to a
bare comparison. -/
theorem Lexes.length_conditionTexts_le_one_iff (h : Lexes [[]] cs ts) :
    (conditionTexts ts).length ≤ 1 ↔ ∀ before body, cs = before ++ '[' :: body → '[' ∉ before →
      namelessOffsets (String.ofList body) = ∅ := by
  by_cases hopen : '[' ∈ cs
  · obtain ⟨w, body, rfl, hw⟩ := List.eq_append_cons_of_mem hopen
    rw [h.length_conditionTexts_append_bracket hw]
    refine ⟨fun hnone before' body' heq hbefore' => ?_, fun hnone => hnone w body rfl hw⟩
    rwa [← eq_of_append_bracket heq hw hbefore']
  · rw [h.conditionTexts_of_notMem hopen]
    refine ⟨?_, fun _ => Nat.zero_le 1⟩
    rintro - before body rfl -
    exact absurd (List.mem_append_right before List.mem_cons_self) hopen

end Lexer

/-! ## Main statement -/

/-- **Conditions without a known field.** A `]` closes a condition if only white space and `)` follow it up
to the end of the text, or if it leads to a comparison without a name; the first `]` of either kind is
found, and none if there is none. So it is a `]` of the first kind, as long as no `]` leads to a bare
comparison, and a text that reads as tokens has one condition at most, as long as behind its first bracket
none does; and not otherwise. -/
theorem conditionEnd?_empty (text : String) :
    (∀ n, FieldSet.empty.conditionEnd? text = some n ↔
      IsLeast (finalOffsets text ∪ namelessOffsets text) n) ∧
    (FieldSet.empty.conditionEnd? text = none ↔ finalOffsets text ∪ namelessOffsets text = ∅) ∧
    FieldSet.empty.terminator.matchStarts text = finalOffsets text ∪ namelessOffsets text ∧
    ((∀ n, FieldSet.empty.conditionEnd? text = some n ↔ IsLeast (finalOffsets text) n) ↔
      namelessOffsets text = ∅) ∧
    ∀ ts, tokenize FieldSet.empty text = .ok ts →
      ((conditionTexts ts).length ≤ 1 ↔ ∀ before body, text.toList = before ++ '[' :: body →
        '[' ∉ before → namelessOffsets (String.ofList body) = ∅) := by
  have hend : ∀ n, FieldSet.empty.conditionEnd? text = some n ↔
      IsLeast (finalOffsets text ∪ namelessOffsets text) n := by
    intro n
    rw [← closingOffsets_nil]
    exact conditionEnd?_eq_some_iff
  have hnone : FieldSet.empty.conditionEnd? text = none ↔
      finalOffsets text ∪ namelessOffsets text = ∅ := by
    rw [← closingOffsets_nil]
    exact conditionEnd?_eq_none_iff
  refine ⟨hend, hnone, ?_, ⟨fun hfinal => ?_, fun hempty n => ?_⟩, fun ts hts => ?_⟩
  · rw [← closingOffsets_nil]
    exact matchStarts_terminator FieldSet.empty text
  · rw [Set.eq_empty_iff_forall_notMem]
    intro m hm
    cases hfound : FieldSet.empty.conditionEnd? text with
    | none =>
      have hmem : m ∈ finalOffsets text ∪ namelessOffsets text := .inr hm
      rw [hnone.1 hfound] at hmem
      cases hmem
    | some n =>
      have hle := ((hend n).1 hfound).2 (.inr hm)
      have hlt := lt_of_mem_namelessOffsets hm ((hfinal n).1 hfound).1
      omega
  · rw [hend, hempty, Set.union_empty]
  · exact (tokenize_eq_ok_iff.1 hts).length_conditionTexts_le_one_iff

/-- Brackets behind a condition and brackets within it do not make a second one of it. -/
theorem conditionEnd?_empty_one_condition :
    tokenize FieldSet.empty "NOT ([a=x] [b=y]] )" =
        .ok [.not, .groupOpen, .condition "[a=x] [b=y]]", .groupClose] ∧
      namelessOffsets "a=x] [b=y]] )" = ∅ ∧
      IsLeast (finalOffsets "a=x] [b=y]] )") 10 := by
  have htokens : tokenize FieldSet.empty "NOT ([a=x] [b=y]] )" =
      .ok [.not, .groupOpen, .condition "[a=x] [b=y]]", .groupClose] := by
    cbv
  have hend : FieldSet.empty.conditionEnd? "a=x] [b=y]] )" = some 10 := by decide +kernel
  obtain ⟨-, -, -, -, hone⟩ := conditionEnd?_empty "NOT ([a=x] [b=y]] )"
  obtain ⟨-, -, -, hfinal, -⟩ := conditionEnd?_empty "a=x] [b=y]] )"
  have hnameless : namelessOffsets "a=x] [b=y]] )" = ∅ :=
    (hone _ htokens).1 (by decide) "NOT (".toList _ rfl (by decide)
  exact ⟨htokens, hnameless, (hfinal.2 hnameless 10).1 hend⟩

/-- Without known fields `[=` starts a condition, so the first `]` is found although more than white space
and `)` follows it, and the text has two conditions. -/
theorem conditionEnd?_empty_nameless :
    FieldSet.empty.conditionEnd? "a=x] [=y]" = some 3 ∧ 3 ∉ finalOffsets "a=x] [=y]" ∧
      8 ∈ finalOffsets "a=x] [=y]" ∧
      tokenize FieldSet.empty "[a=x] [=y]" = .ok [.condition "[a=x]", .condition "[=y]"] := by
  have hopening : Opening [[]] ['[', '='] := ⟨[], List.mem_cons_self, [], .inl rfl, rfl⟩
  have hbridge : Bridge [[]] [' ', '[', '='] :=
    ⟨[' '], ' ', [], ['[', '='], .blank (by decide), .done, hopening, rfl⟩
  have hnameless : 3 ∈ namelessOffsets "a=x] [=y]" :=
    ⟨"a=x".toList, [], [' ', '[', '='], "y]".toList, rfl, by simp, hbridge, by decide⟩
  refine ⟨by decide +kernel, fun hfinal => ?_, ⟨"a=x] [=y".toList, [], rfl, by simp, by decide⟩, by cbv⟩
  exact Nat.lt_irrefl 3 (lt_of_mem_namelessOffsets hnameless hfinal)

end SlotQuery
