import SlotQuery.Proofs.Query.Derivation
import SlotQuery.Proofs.Query.Lexing
import SlotQuery.Query.SelectorSet

/-!
# Reading canonical texts

A condition that was compiled from a query is `Canonical`: its field is known and found again in front
of the comparison, and no `]` in its value can be taken for the closing one, whatever follows. So the
canonical text of a selector reads as its `tokens`, wherever a condition may end behind it
(`Selector.readable`).
-/

namespace SlotQuery

open Text Boundary

/-! ## Sealed values -/

/-- No `]` of the text closes a condition, whatever stands behind the next one. -/
def Boundary.Sealed (names : List (List Char)) (cs : List Char) : Prop :=
  ∀ v w, cs = v ++ ']' :: w → ∀ rest, ¬ Continues names (w ++ ']' :: rest)

section Sealed

variable {names : List (List Char)} {value rest : List Char}

/-- What stands behind the first closing bracket does not matter for those in front of it. -/
theorem Boundary.sealed_of_cut? (hnames : ∀ name ∈ names, ']' ∉ name)
    (h : cut? names (value ++ ']' :: rest) = some (value, rest)) : Sealed names value := by
  obtain ⟨-, -, hfirst⟩ := cut?_eq_some_iff.1 h
  intro v w hvw rest' hcont
  refine hfirst v w hvw ?_
  rw [continues_append_bracket hnames] at hcont ⊢
  exact hcont

theorem Boundary.Sealed.cut?_eq (h : Sealed names value) (hcont : Continues names rest) :
    cut? names (value ++ ']' :: rest) = some (value, rest) :=
  cut?_eq_some_iff.2 ⟨rfl, hcont, fun v w hvw => h v w hvw rest⟩

theorem Boundary.Sealed.of_suffix (h : Sealed names value) {cs : List Char} (hcs : cs <:+ value) :
    Sealed names cs := by
  obtain ⟨u, rfl⟩ := hcs
  rintro v w rfl
  exact h (u ++ v) w (by simp)

/-- A text without `]` in front of a sealed one. -/
theorem Boundary.Sealed.append (h : Sealed names value) {cs : List Char} (hcs : ']' ∉ cs) :
    Sealed names (cs ++ value) := by
  induction cs with
  | nil => exact h
  | cons c cs ih =>
    rw [List.mem_cons, not_or] at hcs
    intro v w hvw
    cases v with
    | nil => exact absurd (List.cons.inj hvw).1 (Ne.symm hcs.1)
    | cons d v => exact ih hcs.2 v w (List.cons.inj hvw).2

end Sealed

/-! ## Canonical conditions -/

/-- No name holds `]` or ends in a mark, so that every condition on one can be written down. -/
structure FieldSet.Plain (fields : FieldSet) : Prop where
  bracket_notMem : ∀ name ∈ fields.names, ']' ∉ name.toList
  last_notMem_marks : ∀ name ∈ fields.names, ∀ c ∈ name.toList.getLast?, c ∉ Operator.marks

theorem FieldSet.bracket_notMem_starts {fields : FieldSet}
    (h : ∀ name ∈ fields.names, ']' ∉ name.toList) : ∀ name ∈ fields.starts, ']' ∉ name := by
  intro name hname
  by_cases hnil : fields.names = []
  · obtain rfl : name = [] := by simpa [FieldSet.starts, hnil] using hname
    exact List.not_mem_nil
  · rw [FieldSet.starts_of_ne_nil hnil] at hname
    obtain ⟨known, hknown, rfl⟩ := List.mem_map.1 hname
    exact h known hknown

theorem FieldSet.Plain.starts {fields : FieldSet} (h : fields.Plain) :
    ∀ name ∈ fields.starts, ']' ∉ name :=
  FieldSet.bracket_notMem_starts h.bracket_notMem

/-- The canonical text of the condition spells it, in every query. -/
structure Condition.Canonical (fields : FieldSet) (c : Condition) : Prop where
  known : c.field ∈ fields.names
  clean : Condition.Clean c.field
  sealed : Sealed fields.starts c.value.toList

theorem Condition.suffix_of_splitComparison {cs field value : List Char} {op : Operator}
    (h : splitComparison cs = some (field, op, value)) : value <:+ cs := by
  obtain ⟨-, -, rfl | ⟨-, rfl⟩⟩ := splitComparison_eq_some h
  · exact ⟨field ++ [op.mark, '='], by simp⟩
  · exact ⟨field ++ ['='], by simp⟩

/-- A token of a query that compiles gives a canonical condition. -/
theorem Condition.canonical_of_readToken {fields : FieldSet} (hfields : fields.Plain)
    {cs rest : List Char} {text : String} {c : Condition}
    (hread : Lexer.readToken fields.starts cs = .ok (.condition text, rest))
    (hc : compile fields text = .ok c) : Canonical fields c := by
  obtain ⟨value, htext, -, hcut⟩ := Lexer.readToken_eq_condition.1 hread
  obtain ⟨hknown, f, hfield, hsplit⟩ := compile_eq_ok hc
  rw [htext, body_brackets] at hsplit
  obtain ⟨hequals, hlineFeed, -⟩ := splitComparison_eq_some hsplit
  have hplain : Plain c.field.toList := by
    refine ⟨fun hm => hequals ?_, fun hm => hlineFeed ?_, hfields.last_notMem_marks _ hknown⟩
    · exact mem_of_mem_trimBoth (hfield ▸ hm)
    · exact mem_of_mem_trimBoth (hfield ▸ hm)
  have htrimmed : trimBoth c.field.toList = c.field.toList := by rw [hfield, trimBoth_trimBoth]
  have hsuffix : c.value.toList <:+ value :=
    (suffix_of_splitComparison hsplit).trans (trimLeft_suffix value)
  exact ⟨hknown, ⟨hplain, htrimmed⟩, (sealed_of_cut? hfields.starts hcut).of_suffix hsuffix⟩

/-- The canonical text reads as one token, wherever a condition may end behind it. -/
theorem Condition.Canonical.readToken_render {fields : FieldSet} (hfields : fields.Plain)
    {c : Condition} (h : c.Canonical fields) {rest : List Char}
    (hcont : Continues fields.starts rest) :
    Lexer.readToken fields.starts (c.render.toList ++ rest) = .ok (.condition c.render, rest) := by
  have hmark : c.operator.mark ≠ ']' := by cases c.operator <;> decide
  have hfront : ']' ∉ c.field.toList ++ [c.operator.mark, '='] := by
    simp [hfields.bracket_notMem _ h.known, hmark.symm]
  have hsealed := h.sealed.append hfront
  rw [List.append_assoc] at hsealed
  refine Lexer.readToken_eq_condition.2 ⟨_, c.render_toList, ?_, hsealed.cut?_eq hcont⟩
  rw [c.render_toList]
  simp

/-! ## Where conditions come from -/

/-- Every condition of the selector is canonical. -/
def Selector.Canonical (fields : FieldSet) (s : Selector) : Prop :=
  ∀ c ∈ s.conditions, c.Canonical fields

theorem Lexer.Lexes.condition_mem {names : List (List Char)} {cs : List Char} {ts : List Token}
    (h : Lexes names cs ts) {text : String} (ht : .condition text ∈ ts) :
    ∃ cs rest, readToken names cs = .ok (.condition text, rest) := by
  induction h with
  | done => cases ht
  | blank _ _ ih => exact ih ht
  | token hread _ ih =>
    rcases List.mem_cons.1 ht with rfl | ht
    · exact ⟨_, _, hread⟩
    · exact ih ht

theorem Grammar.Derives.condition_mem {fields : FieldSet} {rule : Rule} {d : Nat} {ts : List Token}
    {s : Selector} (h : Derives fields rule d ts s) {c : Condition} (hc : c ∈ s.conditions) :
    ∃ text, .condition text ∈ ts ∧ Condition.compile fields text = .ok c := by
  induction h with
  | condition hcompile =>
    obtain rfl := List.mem_singleton.1 hc
    exact ⟨_, List.mem_singleton_self _, hcompile⟩
  | not _ ih | group _ ih =>
    obtain ⟨text, htext, hcompile⟩ := ih hc
    exact ⟨text, by simp [htext], hcompile⟩
  | ofLeaf _ ih | ofConjunction _ ih => exact ih hc
  | and _ _ ihl ihr | or _ _ ihl ihr =>
    rcases List.mem_append.1 hc with hc | hc
    · obtain ⟨text, htext, hcompile⟩ := ihl hc
      exact ⟨text, by simp [htext], hcompile⟩
    · obtain ⟨text, htext, hcompile⟩ := ihr hc
      exact ⟨text, by simp [htext], hcompile⟩

theorem SelectorSet.condition_mem_of_readAll {fields : FieldSet} {ts : List Token}
    {ss : List Selector} (h : readAll fields ts = .ok ss) {s : Selector} (hs : s ∈ ss)
    {c : Condition} (hc : c ∈ s.conditions) :
    ∃ text, .condition text ∈ ts ∧ Condition.compile fields text = .ok c := by
  fun_induction readAll fields ts generalizing ss with
  | case1 | case2 =>
    cases h
    cases hs
  | case3 | case4 => cases h
  | case5 t ts _ s' rest hread ss' hall ih =>
    cases h
    obtain ⟨us, d, hts, -, hder, -⟩ := Grammar.level_sound fields _ .disjunction _ _ _ hread
    rw [hts]
    rcases List.mem_cons.1 hs with rfl | hs
    · obtain ⟨text, htext, hcompile⟩ := hder.condition_mem hc
      exact ⟨text, List.mem_append_left rest htext, hcompile⟩
    · obtain ⟨text, htext, hcompile⟩ := ih hall hs
      exact ⟨text, List.mem_append_right us htext, hcompile⟩

theorem SelectorSet.compile_of_tokenize {fields : FieldSet} {query : String} {ts : List Token}
    (h : tokenize fields query = .ok ts) :
    compile fields query = (readAll fields ts).map SelectorSet.mk := by
  rw [compile, h]

theorem SelectorSet.compile_eq_ok {fields : FieldSet} {query : String} {set : SelectorSet}
    (h : compile fields query = .ok set) :
    ∃ ts, tokenize fields query = .ok ts ∧ readAll fields ts = .ok set.selectors := by
  unfold compile at h
  split at h
  · cases h
  · next ts htokens =>
    refine ⟨ts, htokens, ?_⟩
    cases hall : readAll fields ts with
    | error e =>
      rw [hall] at h
      cases h
    | ok ss =>
      rw [hall] at h
      cases h
      rfl

/-- The selectors of a compiled query are canonical. -/
theorem SelectorSet.canonical_of_compile {fields : FieldSet} (hfields : fields.Plain)
    {query : String} {set : SelectorSet} (h : compile fields query = .ok set) {s : Selector}
    (hs : s ∈ set.selectors) : s.Canonical fields := by
  intro c hc
  obtain ⟨ts, htokens, hall⟩ := compile_eq_ok h
  obtain ⟨text, htext, hcompile⟩ := condition_mem_of_readAll hall hs hc
  obtain ⟨cs, rest, hread⟩ := (tokenize_eq_ok_iff.1 htokens).condition_mem htext
  exact Condition.canonical_of_readToken hfields hread hcompile

/-! ## Readable texts -/

namespace Lexer

/-- The text reads as the tokens wherever a condition may end behind it, and what it starts with leads
to a condition. -/
structure Readable (names : List (List Char)) (text : List Char) (ts : List Token) : Prop where
  lexes : ∀ {rest us}, Continues names rest → Lexes names rest us →
    Lexes names (text ++ rest) (ts ++ us)
  leads : ∀ {before}, isSpacer before = true → ∃ items opening rest,
    Approach before items ∧ Opening names opening ∧ text = items ++ (opening ++ rest)

variable {names : List (List Char)} {text left right keyword : List Char} {ts ls rs : List Token}

/-- Behind a condition white space and a readable text may stand. -/
theorem Readable.continues (h : Readable names text ts) (rest : List Char) :
    Continues names (' ' :: (text ++ rest)) := by
  obtain ⟨items, opening, rest', hi, ho, rfl⟩ := h.leads (show isSpacer ' ' = true by decide)
  have hbridge : Bridge names ([' '] ++ items ++ opening) :=
    ⟨[' '], ' ', items, opening, .blank (by decide), hi, ho, rfl⟩
  simpa using Continues.of_bridge hbridge (rest' ++ rest)

/-- Behind a condition a keyword and a readable text may stand. -/
theorem Readable.continues_keyword (h : Readable names text ts) {last : Char}
    (hkeyword : Separator keyword last) (rest : List Char) :
    Continues names (' ' :: (keyword ++ ' ' :: (text ++ rest))) := by
  obtain ⟨items, opening, rest', hi, ho, rfl⟩ := h.leads (show isSpacer ' ' = true by decide)
  have hbridge : Bridge names (keyword ++ (' ' :: items) ++ opening) :=
    ⟨keyword, last, ' ' :: items, opening, hkeyword, .spacer (by decide) hi, ho, rfl⟩
  refine Continues.cons (by decide) ?_
  simpa using Continues.of_bridge hbridge (rest' ++ rest)

theorem Readable.not (h : Readable names text ts) :
    Readable names ('N' :: 'O' :: 'T' :: ' ' :: text) (.not :: ts) where
  lexes hcont hrest := .token rfl (.blank (by decide) (h.lexes hcont hrest))
  leads hb := by
    obtain ⟨items, opening, rest, hi, ho, rfl⟩ := h.leads (show isSpacer ' ' = true by decide)
    exact ⟨_, opening, rest, .not hb (.spacer (by decide) hi), ho, rfl⟩

theorem Readable.link {t : Token} {last : Char} (hl : Readable names left ls)
    (hr : Readable names right rs) (hkeyword : Separator keyword last)
    (hread : ∀ cs, readToken names (keyword ++ cs) = .ok (t, cs)) :
    Readable names ('(' :: (left ++ ' ' :: (keyword ++ ' ' :: (right ++ [')']))))
      (.groupOpen :: (ls ++ t :: (rs ++ [.groupClose]))) where
  lexes {rest us} hcont hrest := by
    have hclose : Lexes names (')' :: rest) (.groupClose :: us) := .token rfl hrest
    have hright := hr.lexes (hcont.cons (by decide : isTrailer ')' = true)) hclose
    have hlink : Lexes names (keyword ++ ' ' :: (right ++ ')' :: rest)) _ :=
      .token (hread _) (.blank (by decide) hright)
    have hleft := hl.lexes (hr.continues_keyword hkeyword (')' :: rest)) (.blank (by decide) hlink)
    simpa using Lexes.token (rfl : readToken names ('(' :: _) = .ok (.groupOpen, _)) hleft
  leads _ := by
    obtain ⟨items, opening, rest, hi, ho, rfl⟩ := hl.leads (show isSpacer '(' = true by decide)
    refine ⟨'(' :: items, opening, rest ++ ' ' :: (keyword ++ ' ' :: (right ++ [')'])),
      .spacer (by decide) hi, ho, ?_⟩
    simp

/-- Readable texts may stand one after the other. -/
theorem Readable.append (hl : Readable names left ls) (hr : Readable names right rs) :
    Readable names (left ++ ' ' :: right) (ls ++ rs) where
  lexes hcont hrest := by
    have hright := Lexes.blank (by decide : isBlank ' ' = true) (hr.lexes hcont hrest)
    simpa using hl.lexes (hr.continues _) hright
  leads hb := by
    obtain ⟨items, opening, rest, hi, ho, rfl⟩ := hl.leads hb
    exact ⟨items, opening, rest ++ ' ' :: right, hi, ho, by simp⟩

end Lexer

/-! ## Canonical texts of selectors -/

/-- The tokens of the canonical text. -/
def Selector.tokens : Selector → List Token
  | condition c => [.condition c.render]
  | and left right => .groupOpen :: (left.tokens ++ .and :: (right.tokens ++ [.groupClose]))
  | or left right => .groupOpen :: (left.tokens ++ .or :: (right.tokens ++ [.groupClose]))
  | not s => .not :: s.tokens

theorem Condition.Canonical.readable {fields : FieldSet} (hfields : fields.Plain) {c : Condition}
    (h : c.Canonical fields) :
    Lexer.Readable fields.starts c.render.toList [.condition c.render] where
  lexes hcont hrest := .token (h.readToken_render hfields hcont) hrest
  leads _ := by
    have hstart : c.field.toList ∈ fields.starts := by
      rw [FieldSet.starts_of_ne_nil (List.ne_nil_of_mem h.known)]
      exact List.mem_map_of_mem h.known
    have hopening : Opening fields.starts ('[' :: c.field.toList ++ [c.operator.mark] ++ ['=']) :=
      ⟨_, hstart, _, .inr ⟨_, Condition.mark_mem_marks c.operator, rfl⟩, rfl⟩
    refine ⟨[], _, c.value.toList ++ [']'], .done, hopening, ?_⟩
    rw [c.render_toList]
    simp

/-- The canonical text of a selector reads as its tokens. -/
theorem Selector.readable {fields : FieldSet} (hfields : fields.Plain) {s : Selector}
    (h : s.Canonical fields) : Lexer.Readable fields.starts s.render.toList s.tokens := by
  induction s with
  | condition c => exact (h c (List.mem_singleton_self c)).readable hfields
  | and left right ihl ihr =>
    obtain ⟨hleft, hright⟩ := List.forall_mem_append.1 h
    simpa [render, tokens, String.toList_append] using (ihl hleft).link (ihr hright) .and fun _ => rfl
  | or left right ihl ihr =>
    obtain ⟨hleft, hright⟩ := List.forall_mem_append.1 h
    simpa [render, tokens, String.toList_append] using (ihl hleft).link (ihr hright) .or fun _ => rfl
  | not s ih => simpa [render, tokens, String.toList_append] using (ih h).not

theorem Selector.readable_intercalate {fields : FieldSet} (hfields : fields.Plain)
    {ss : List Selector} (hne : ss ≠ []) (h : ∀ s ∈ ss, s.Canonical fields) :
    Lexer.Readable fields.starts (String.intercalate " " (ss.map render)).toList
      (ss.flatMap tokens) := by
  match ss, hne with
  | [s], _ => simpa using s.readable hfields (h s List.mem_cons_self)
  | s :: s' :: ss, _ =>
    have hs := s.readable hfields (h s List.mem_cons_self)
    have hss := readable_intercalate hfields (List.cons_ne_nil s' ss) fun s hs =>
      h s (List.mem_cons_of_mem _ hs)
    simpa [String.toList_append] using hs.append hss

/-- The canonical text of a set reads as the tokens of its selectors. -/
theorem SelectorSet.tokenize_render {fields : FieldSet} (hfields : fields.Plain) {set : SelectorSet}
    (h : ∀ s ∈ set.selectors, s.Canonical fields) :
    tokenize fields set.render = .ok (set.selectors.flatMap Selector.tokens) := by
  rw [tokenize_eq_ok_iff, render]
  by_cases hnil : set.selectors = []
  · rw [hnil]
    exact .done
  · have hread := Selector.readable_intercalate hfields hnil h
    have hend : Continues fields.starts [] := ⟨[], [], rfl, by simp, .inl rfl⟩
    have hlex := hread.lexes hend .done
    rwa [List.append_nil, List.append_nil] at hlex

end SlotQuery
