import Mathlib.Data.List.Forall2
import SlotQuery.Proofs.Query.Canonical
import SlotQuery.Proofs.Query.Recognition

/-!
# White space between tokens

A text that has tokens is made of their spellings and of gaps of white space around them. What makes a
`]` the closing one depends on the gaps only in whether they are empty (`closes_spaced`), and it looks at
no text beyond the next `]`. So other gaps give the same tokens, as long as white space stays where
there was some. Main statement: `tokenize_spaced`.
-/

namespace SlotQuery

open Text Boundary

namespace Lexer

variable {names : List (List Char)} {c : Char} {cs rest g : List Char} {t : Token} {ts : List Token}
  {gaps gaps' : List (List Char)}

/-! ## Gaps -/

/-- White space only. -/
def Gap (g : List Char) : Prop := ∀ c ∈ g, isBlank c = true

/-- The text of the tokens, with one of the gaps in front of each and one behind the last. -/
def spaced : List (List Char) → List Token → List Char
  | [], _ => []
  | g :: _, [] => g
  | g :: gaps, t :: ts => g ++ (t.display.toList ++ spaced gaps ts)

/-- A gap in the place of another one, which is not closed. -/
structure Widens (g g' : List Char) : Prop where
  gap : Gap g
  gap' : Gap g'
  ne_nil : g ≠ [] → g' ≠ []

/-- The token is a keyword, a parenthesis or a condition in brackets. -/
def Spelled (t : Token) : Prop :=
  t ∈ keywords ∨ ∃ b value, t = .condition b ∧ b.toList = '[' :: (value ++ [']'])

/-- A token that is read has a spelling. -/
theorem spelled_of_readToken (h : readToken names cs = .ok (t, rest)) : Spelled t := by
  rcases keyword_or_condition h with ht | ⟨b, rfl⟩
  · exact .inl ht
  · obtain ⟨value, hb, -, -⟩ := readToken_eq_condition.1 h
    exact .inr ⟨b, value, rfl, hb⟩

theorem Lexes.spelled (h : Lexes names cs ts) : ∀ t ∈ ts, Spelled t := by
  induction h with
  | done => simp
  | blank _ _ ih => exact ih
  | token hread _ ih => exact List.forall_mem_cons.2 ⟨spelled_of_readToken hread, ih⟩

/-- White space in front changes no token. -/
theorem Lexes.of_gap (hg : Gap g) (h : Lexes names cs ts) : Lexes names (g ++ cs) ts := by
  induction g with
  | nil => exact h
  | cons c g ih =>
    obtain ⟨hc, hg⟩ := List.forall_mem_cons.1 hg
    exact .blank hc (ih hg)

/-! ## What the look-ahead sees of a gap -/

/-- White space in front of what leads to a condition does not count. -/
theorem leads_gap (hg : Gap g) (cs : List Char) : leads names (g ++ cs) = leads names cs := by
  induction g with
  | nil => rfl
  | cons c g ih =>
    obtain ⟨hc, hg⟩ := List.forall_mem_cons.1 hg
    rw [List.cons_append, leads_spacer (isSpacer_of_isBlank hc), ih hg]

theorem leads_of_leadsOn (h : leadsOn names cs = true) : leads names cs = true := by
  cases cs with
  | nil => cases h
  | cons c cs =>
    rcases Bool.or_eq_true_iff.1 h with h | h
    · exact leads_of_startsCondition h
    · obtain ⟨hc, h⟩ := Bool.and_eq_true_iff.1 h
      rwa [leads_spacer hc]

theorem leadsOn_gap (hg : Gap g) (hne : g ≠ []) (cs : List Char) :
    leadsOn names (g ++ cs) = leads names cs := by
  cases g with
  | nil => exact absurd rfl hne
  | cons c g =>
    obtain ⟨hc, hg⟩ := List.forall_mem_cons.1 hg
    have hstart : startsCondition names (c :: (g ++ cs)) = false := by
      rw [Bool.eq_false_iff]
      intro h
      obtain rfl := startsCondition_head h
      cases hc
    rw [List.cons_append, leadsOn, hstart, isSpacer_of_isBlank hc, leads_gap hg]
    rfl

/-- Behind a closing bracket, white space counts as a gap and does nothing else. -/
theorem closes_gap (hg : Gap g) (gap : Bool) (cs : List Char) :
    closes names gap (g ++ cs) = closes names (gap || !g.isEmpty) cs := by
  induction g generalizing gap with
  | nil => simp
  | cons c g ih =>
    obtain ⟨hc, hg⟩ := List.forall_mem_cons.1 hg
    rw [List.cons_append, closes_blank hc, ih hg]
    simp

/-! ## What the look-ahead sees of a token -/

/-- A condition starts or does not start here, whatever stands behind its brackets. -/
theorem startsCondition_brackets (hnames : ∀ name ∈ names, ']' ∉ name) {value : List Char} :
    startsCondition names ('[' :: (value ++ ']' :: rest)) = true ↔
      ∃ w, Opening names w ∧ w <+: '[' :: value := by
  rw [startsCondition_iff]
  constructor
  · rintro ⟨w, hw, hpre⟩
    exact ⟨w, hw, prefix_of_prefix_append hpre (hw.bracket_notMem hnames)⟩
  · rintro ⟨w, hw, hpre⟩
    exact ⟨w, hw, hpre.trans (List.prefix_append ('[' :: value) _)⟩

theorem display_condition {b : String} {value : List Char} (hb : b.toList = '[' :: (value ++ [']']))
    (cs : List Char) :
    (Token.condition b).display.toList ++ cs = '[' :: (value ++ ']' :: cs) := by
  rw [Token.display, hb]
  simp

theorem leads_bracket (cs : List Char) :
    leads names ('[' :: cs) = startsCondition names ('[' :: cs) := by
  rw [leads, if_neg (by decide)]
  rintro _ he
  cases he

theorem leadsOn_bracket (cs : List Char) :
    leadsOn names ('[' :: cs) = startsCondition names ('[' :: cs) := by
  rw [leadsOn, show isSpacer '[' = false by decide, Bool.false_and, Bool.or_false]

/-- Behind a token that leads on, a text that leads on where the other one does may stand. -/
theorem leads_display (hnames : ∀ name ∈ names, ']' ∉ name) (ht : Spelled t)
    (hleads : leads names cs = true → leads names rest = true)
    (hleadsOn : leadsOn names cs = true → leadsOn names rest = true)
    (h : leads names (t.display.toList ++ cs) = true) :
    leads names (t.display.toList ++ rest) = true := by
  rcases ht with ht | ⟨b, value, rfl, hb⟩
  · rcases mem_keywords.1 ht with rfl | rfl | rfl | rfl | rfl
    · cases h
    · cases h
    · exact leads_not.trans (hleadsOn (leads_not.symm.trans h))
    · exact (leads_spacer rfl).trans (hleads ((leads_spacer rfl).symm.trans h))
    · cases h
  · rw [display_condition hb, leads_bracket, startsCondition_brackets hnames] at h ⊢
    exact h

/-- What follows a spelling may be widened if it still leads on. -/
theorem leadsOn_display (hnames : ∀ name ∈ names, ']' ∉ name) (ht : Spelled t)
    (hleads : leads names cs = true → leads names rest = true)
    (h : leadsOn names (t.display.toList ++ cs) = true) :
    leadsOn names (t.display.toList ++ rest) = true := by
  rcases ht with ht | ⟨b, value, rfl, hb⟩
  · rcases mem_keywords.1 ht with rfl | rfl | rfl | rfl | rfl
    · cases h
    · cases h
    · cases h
    · exact hleads h
    · cases h
  · rw [display_condition hb, leadsOn_bracket, startsCondition_brackets hnames] at h ⊢
    exact h

theorem closes_and (gap : Bool) (cs : List Char) :
    closes names gap ('A' :: 'N' :: 'D' :: cs) = leadsOn names cs := by
  cases gap <;> rfl

theorem closes_or (gap : Bool) (cs : List Char) :
    closes names gap ('O' :: 'R' :: cs) = leadsOn names cs := by
  cases gap <;> rfl

/-- Where neither a trailer nor a linking keyword stands, a gap has to lead on. -/
theorem closes_other (hc : isTrailer c = false) (ha : c ≠ 'A') (ho : c ≠ 'O') (gap : Bool) :
    closes names gap (c :: cs) = (gap && leads names (c :: cs)) := by
  obtain ⟨hblank, hparen⟩ : isBlank c = false ∧ c ≠ ')' := by simpa [isTrailer] using hc
  rw [closes, if_neg (by simp [hblank]), if_neg hparen]
  split
  · next heq => exact absurd (List.cons.inj heq).1 ha
  · next heq => exact absurd (List.cons.inj heq).1 ho
  · rw [Bool.or_false]

theorem closes_display (hnames : ∀ name ∈ names, ']' ∉ name) (ht : Spelled t) {gap gap' : Bool}
    (hgap : gap = true → gap' = true)
    (hleads : leads names cs = true → leads names rest = true)
    (hleadsOn : leadsOn names cs = true → leadsOn names rest = true)
    (hcloses : closes names false cs = true → closes names false rest = true)
    (h : closes names gap (t.display.toList ++ cs) = true) :
    closes names gap' (t.display.toList ++ rest) = true := by
  have hlead := leads_display hnames ht hleads hleadsOn
  -- a token that does not link or close has to stand behind a gap
  have hother {d : Char} {ds : List Char} (hd : t.display.toList = d :: ds)
      (hc : isTrailer d = false) (ha : d ≠ 'A') (ho : d ≠ 'O') :
      closes names gap' (t.display.toList ++ rest) = true := by
    rw [hd, List.cons_append] at h hlead ⊢
    rw [closes_other hc ha ho, Bool.and_eq_true] at h ⊢
    exact ⟨hgap h.1, hlead h.2⟩
  rcases ht with ht | ⟨b, value, rfl, hb⟩
  · rcases mem_keywords.1 ht with rfl | rfl | rfl | rfl | rfl
    · exact (closes_and gap' rest).trans (hleadsOn ((closes_and gap cs).symm.trans h))
    · exact (closes_or gap' rest).trans (hleadsOn ((closes_or gap cs).symm.trans h))
    · exact hother rfl (by decide) (by decide) (by decide)
    · exact hother rfl (by decide) (by decide) (by decide)
    · exact (closes_paren gap').trans (hcloses ((closes_paren gap).symm.trans h))
  · exact hother hb (by decide) (by decide) (by decide)

/-! ## Other gaps -/

/-- Wider gaps lead on where narrower ones do. -/
theorem leads_spaced (hnames : ∀ name ∈ names, ']' ∉ name) (hts : ∀ t ∈ ts, Spelled t)
    (hgaps : List.Forall₂ Widens gaps gaps') :
    (leads names (spaced gaps ts) = true → leads names (spaced gaps' ts) = true) ∧
      (leadsOn names (spaced gaps ts) = true → leadsOn names (spaced gaps' ts) = true) := by
  induction ts generalizing gaps gaps' with
  | nil =>
    -- behind the last token nothing leads to a condition
    have hleads : leads names (spaced gaps []) = false := by
      cases hgaps with
      | nil => rfl
      | @cons g g' gaps gaps' hg _ =>
        have h : leads names (g ++ []) = leads names [] := leads_gap hg.gap []
        rwa [List.append_nil] at h
    refine ⟨fun h => ?_, fun h => ?_⟩
    · rw [hleads] at h
      cases h
    · rw [leads_of_leadsOn h] at hleads
      cases hleads
  | cons t ts ih =>
    obtain ⟨ht, hts⟩ := List.forall_mem_cons.1 hts
    cases hgaps with
    | nil => exact ⟨id, id⟩
    | @cons g g' gaps gaps' hg hgaps =>
      obtain ⟨hleads, hleadsOn⟩ := ih hts hgaps
      have hlead := leads_display hnames ht hleads hleadsOn
      simp only [spaced, leads_gap hg.gap, leads_gap hg.gap']
      refine ⟨hlead, fun h => ?_⟩
      by_cases hne' : g' = []
      · have hne : g = [] := by
          by_contra hne
          exact hg.ne_nil hne hne'
        subst hne hne'
        exact leadsOn_display hnames ht hleads h
      · rw [leadsOn_gap hg.gap' hne']
        have h := leads_of_leadsOn h
        rw [leads_gap hg.gap] at h
        exact hlead h

/-- Wider gaps make a `]` the closing one where narrower ones do. -/
theorem closes_spaced (hnames : ∀ name ∈ names, ']' ∉ name) (hts : ∀ t ∈ ts, Spelled t)
    (hgaps : List.Forall₂ Widens gaps gaps') {gap gap' : Bool} (hgap : gap = true → gap' = true)
    (h : closes names gap (spaced gaps ts) = true) : closes names gap' (spaced gaps' ts) = true := by
  induction ts generalizing gaps gaps' gap gap' with
  | nil =>
    cases hgaps with
    | nil => rfl
    | @cons g g' gaps gaps' hg _ =>
      have h : closes names gap' (g' ++ []) = true := closes_gap hg.gap' gap' []
      rwa [List.append_nil] at h
  | cons t ts ih =>
    obtain ⟨ht, hts⟩ := List.forall_mem_cons.1 hts
    cases hgaps with
    | nil => rfl
    | @cons g g' gaps gaps' hg hgaps =>
      obtain ⟨hleads, hleadsOn⟩ := leads_spaced hnames hts hgaps
      have hwider : (gap || !g.isEmpty) = true → (gap' || !g'.isEmpty) = true := by
        simp only [Bool.or_eq_true, Bool.not_eq_true', List.isEmpty_eq_false_iff]
        exact Or.imp hgap hg.ne_nil
      rw [spaced, closes_gap hg.gap] at h
      rw [spaced, closes_gap hg.gap']
      exact closes_display hnames ht hwider hleads hleadsOn (ih hts hgaps id) h

/-- A token is read in front of wider gaps as in front of narrower ones. -/
theorem readToken_spaced (hnames : ∀ name ∈ names, ']' ∉ name) (hts : ∀ t ∈ ts, Spelled t)
    (hgaps : List.Forall₂ Widens gaps gaps')
    (h : readToken names cs = .ok (t, spaced gaps ts)) :
    readToken names (t.display.toList ++ spaced gaps' ts) = .ok (t, spaced gaps' ts) := by
  rcases keyword_or_condition h with ht | ⟨b, rfl⟩
  · exact readToken_keyword ht _
  · obtain ⟨value, hb, -, hcut⟩ := readToken_eq_condition.1 h
    have hcont : Continues names (spaced gaps' ts) :=
      closes_iff.1 (closes_spaced hnames hts hgaps id (closes_iff.2 (continues_of_readToken h)))
    have hcut' := (sealed_of_cut? hnames hcut).cut?_eq hcont
    exact readToken_eq_condition.2 ⟨value, hb, display_condition hb _, hcut'⟩

/-- A text with tokens is spaced, and every text that is spaced more widely has the same tokens. -/
theorem Lexes.exists_spaced (hnames : ∀ name ∈ names, ']' ∉ name) (h : Lexes names cs ts) :
    ∃ gaps, gaps.length = ts.length + 1 ∧ (∀ g ∈ gaps, Gap g) ∧ cs = spaced gaps ts ∧
      ∀ gaps', List.Forall₂ Widens gaps gaps' → Lexes names (spaced gaps' ts) ts := by
  induction h with
  | done =>
    refine ⟨[[]], rfl, by simp [Gap], rfl, fun gaps' hgaps => ?_⟩
    obtain ⟨g', _, hg, hnil, rfl⟩ := List.forall₂_cons_left_iff.1 hgaps
    obtain rfl := List.forall₂_nil_left_iff.1 hnil
    have h : Lexes names (g' ++ []) [] := .of_gap hg.gap' .done
    rwa [List.append_nil] at h
  | @blank c cs ts hc _ ih =>
    obtain ⟨gaps, hlen, hall, rfl, hlex⟩ := ih
    obtain ⟨g, gaps, rfl⟩ := List.exists_cons_of_length_eq_add_one hlen
    obtain ⟨hg, hall⟩ := List.forall_mem_cons.1 hall
    refine ⟨(c :: g) :: gaps, hlen, ?_, by cases ts <;> rfl, fun gaps' hgaps => ?_⟩
    · exact List.forall_mem_cons.2 ⟨List.forall_mem_cons.2 ⟨hc, hg⟩, hall⟩
    · obtain ⟨g', gaps', hwide, htail, rfl⟩ := List.forall₂_cons_left_iff.1 hgaps
      have hne : g' ≠ [] := hwide.ne_nil (List.cons_ne_nil c g)
      exact hlex _ (.cons ⟨hg, hwide.gap', fun _ => hne⟩ htail)
  | @token cs rest t ts hread hrest ih =>
    obtain ⟨gaps, hlen, hall, rfl, hlex⟩ := ih
    refine ⟨[] :: gaps, congrArg (· + 1) hlen, ?_, readToken_eq hread, fun gaps' hgaps => ?_⟩
    · exact List.forall_mem_cons.2 ⟨by simp [Gap], hall⟩
    · obtain ⟨g', gaps', hwide, htail, rfl⟩ := List.forall₂_cons_left_iff.1 hgaps
      have hread' := readToken_spaced hnames hrest.spelled htail hread
      exact (Lexes.token hread' (hlex _ htail)).of_gap hwide.gap'

end Lexer

/-- **White space between tokens.** A text that has tokens is made of their spellings, of which those of
conditions stand in brackets, and of gaps of white space around them. Any other gaps that are not empty
where these are not give the same tokens. -/
theorem tokenize_spaced (fields : FieldSet) (hnames : ∀ name ∈ fields.names, ']' ∉ name.toList)
    (query : String) (ts : List Token) (h : tokenize fields query = .ok ts) :
    ∃ gaps, gaps.length = ts.length + 1 ∧ (∀ g ∈ gaps, Lexer.Gap g) ∧
      query.toList = Lexer.spaced gaps ts ∧ (∀ t ∈ ts, Lexer.Spelled t) ∧
      ∀ gaps', List.Forall₂ Lexer.Widens gaps gaps' →
        tokenize fields (String.ofList (Lexer.spaced gaps' ts)) = .ok ts := by
  have hlex := tokenize_eq_ok_iff.1 h
  obtain ⟨gaps, hlen, hall, hquery, hwider⟩ :=
    hlex.exists_spaced (FieldSet.bracket_notMem_starts hnames)
  refine ⟨gaps, hlen, hall, hquery, hlex.spelled, fun gaps' hgaps => ?_⟩
  rw [tokenize_eq_ok_iff, String.toList_ofList]
  exact hwider gaps' hgaps

/-- A blank more in every gap of `[a=1]y])OR NOT([b=2])` changes nothing, neither in front of the
parenthesis nor in the gaps that were empty. -/
theorem tokenize_spaced_one_more :
    (∀ name ∈ (FieldSet.ofList ["a", "b"]).names, ']' ∉ name.toList) ∧
      tokenize (FieldSet.ofList ["a", "b"]) "([a=1]y])OR NOT([b=2])" =
        .ok [.groupOpen, .condition "[a=1]y]", .groupClose, .or, .not, .groupOpen,
          .condition "[b=2]", .groupClose] ∧
      ∃ gaps : List (List Char), gaps.length = 9 ∧
        "([a=1]y])OR NOT([b=2])".toList = Lexer.spaced gaps [.groupOpen, .condition "[a=1]y]",
          .groupClose, .or, .not, .groupOpen, .condition "[b=2]", .groupClose] ∧
        tokenize (FieldSet.ofList ["a", "b"]) (String.ofList (Lexer.spaced (gaps.map (' ' :: ·))
          [.groupOpen, .condition "[a=1]y]", .groupClose, .or, .not, .groupOpen,
            .condition "[b=2]", .groupClose])) =
          .ok [.groupOpen, .condition "[a=1]y]", .groupClose, .or, .not, .groupOpen,
            .condition "[b=2]", .groupClose] := by
  have hnames : ∀ name ∈ (FieldSet.ofList ["a", "b"]).names, ']' ∉ name.toList := by decide
  have htokens : tokenize (FieldSet.ofList ["a", "b"]) "([a=1]y])OR NOT([b=2])" =
      .ok [.groupOpen, .condition "[a=1]y]", .groupClose, .or, .not, .groupOpen,
        .condition "[b=2]", .groupClose] := by
    cbv
  obtain ⟨gaps, hlen, hall, hquery, -, hwider⟩ := tokenize_spaced _ hnames _ _ htokens
  refine ⟨hnames, htokens, gaps, hlen, hquery, hwider _ ?_⟩
  rw [List.forall₂_map_right_iff, List.forall₂_same]
  intro g hg
  exact ⟨hall g hg, List.forall_mem_cons.2 ⟨by decide, hall g hg⟩, fun _ => List.cons_ne_nil ' ' g⟩

end SlotQuery
