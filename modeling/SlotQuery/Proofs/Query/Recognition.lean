import SlotQuery.Proofs.Query.Lexing

/-!
# Which texts have tokens

Whether a text reads as tokens does not depend on the known fields. In front of the first `[` there has
to be nothing but white space, keywords and parentheses, and if there is a `[`, the text has to end with
a `]` and trailers behind it. From one condition on only `Bare` text leads to the next one, and the last
`]` closes whatever is still open. Main statement: `tokenize_outcome`.
-/

namespace SlotQuery

open Text Boundary

namespace Lexer

variable {names : List (List Char)} {c : Char} {cs rest w v : List Char} {t : Token} {ts : List Token}
  {e : QueryError}

/-! ## Keywords and parentheses -/

/-- The tokens that are always spelled alike. -/
def keywords : List Token := [.and, .or, .not, .groupOpen, .groupClose]

theorem mem_keywords :
    t ∈ keywords ↔ t = .and ∨ t = .or ∨ t = .not ∨ t = .groupOpen ∨ t = .groupClose := by
  simp [keywords]

/-- A word of the language is read whatever follows it. -/
theorem readToken_keyword (ht : t ∈ keywords) (cs : List Char) :
    readToken names (t.display.toList ++ cs) = .ok (t, cs) := by
  rcases mem_keywords.1 ht with rfl | rfl | rfl | rfl | rfl <;> rfl

/-- A token that is read is a keyword or parenthesis, or a condition. -/
theorem keyword_or_condition (h : readToken names cs = .ok (t, rest)) :
    t ∈ keywords ∨ ∃ b, t = .condition b := by
  unfold readToken at h
  split at h
  · split at h
    · cases h
      exact .inr ⟨_, rfl⟩
    · cases h
  all_goals cases h
  all_goals exact .inl (by decide)

/-- Reading fails at a bracket that is not closed, or where no token starts. -/
theorem readToken_eq_error (h : readToken names (c :: cs) = .error e) :
    (c = '[' ∧ cut? names cs = none ∧ ∃ near, e = .unterminatedCondition near) ∨
      (c ≠ '[' ∧ (∀ t ∈ keywords, ¬ t.display.toList <+: c :: cs) ∧
        ∃ near, e = .unrecognizedToken near) := by
  have hkeyword : ∀ t ∈ keywords, ¬ t.display.toList <+: c :: cs := by
    rintro t ht ⟨rest, hrest⟩
    rw [← hrest, readToken_keyword ht rest] at h
    cases h
  unfold readToken at h
  split at h
  case h_1 heq =>
    obtain ⟨rfl, rfl⟩ := List.cons.inj heq
    split at h
    · cases h
    · next hcut =>
      cases h
      exact .inl ⟨rfl, hcut, _, rfl⟩
  case h_7 hbracket _ _ _ _ _ =>
    cases h
    exact .inr ⟨fun hc => hbracket cs (by rw [hc]), hkeyword, _, rfl⟩
  all_goals cases h

/-! ## Bare texts -/

/-- The text splits into white space, keywords and parentheses. -/
inductive Bare : List Char → Prop where
  | nil : Bare []
  | blank {c : Char} {cs : List Char} : isBlank c = true → Bare cs → Bare (c :: cs)
  | keyword {t : Token} {cs : List Char} : t ∈ keywords → Bare cs → Bare (t.display.toList ++ cs)

theorem Bare.append (hw : Bare w) (hv : Bare v) : Bare (w ++ v) := by
  induction hw with
  | nil => exact hv
  | blank hc _ ih => exact .blank hc ih
  | keyword ht _ ih =>
    rw [List.append_assoc]
    exact .keyword ht ih

/-- No word of the language looks like the start of a condition. -/
theorem display_eq_cons_of_keyword (ht : t ∈ keywords) :
    ∃ c cs, t.display.toList = c :: cs ∧ isBlank c = false ∧ c ≠ '[' ∧ '[' ∉ cs := by
  rcases mem_keywords.1 ht with rfl | rfl | rfl | rfl | rfl <;> exact ⟨_, _, rfl, by decide⟩

/-- Words and white space hold no bracket. -/
theorem Bare.bracket_notMem (h : Bare w) : '[' ∉ w := by
  induction h with
  | nil => exact List.not_mem_nil
  | blank hc _ ih =>
    rw [List.mem_cons, not_or]
    refine ⟨?_, ih⟩
    rintro rfl
    cases hc
  | keyword ht _ ih =>
    obtain ⟨c, cs, hdisplay, -, hc, hcs⟩ := display_eq_cons_of_keyword ht
    simp [hdisplay, hc.symm, hcs, ih]

theorem Bare.of_blank (h : Bare (c :: cs)) (hc : isBlank c = true) : Bare cs := by
  generalize hw : c :: cs = w at h
  cases h with
  | nil => cases hw
  | blank _ h =>
    obtain ⟨-, rfl⟩ := List.cons.inj hw
    exact h
  | keyword ht _ =>
    obtain ⟨d, ds, hdisplay, hd, -⟩ := display_eq_cons_of_keyword ht
    rw [hdisplay] at hw
    obtain ⟨rfl, -⟩ := List.cons.inj hw
    rw [hd] at hc
    cases hc

/-- Where a bare text does not start with white space, a keyword or parenthesis stands. -/
theorem Bare.exists_keyword (h : Bare (c :: cs)) (hc : isBlank c = false) :
    ∃ t ∈ keywords, ∃ rest, c :: cs = t.display.toList ++ rest ∧ Bare rest := by
  generalize hw : c :: cs = w at h
  cases h with
  | nil => cases hw
  | blank hd _ =>
    obtain ⟨rfl, -⟩ := List.cons.inj hw
    rw [hd] at hc
    cases hc
  | keyword ht h => exact ⟨_, ht, _, rfl, h⟩

/-- A bare text reads in one way. -/
theorem Bare.of_keyword (ht : t ∈ keywords) (h : Bare (t.display.toList ++ cs)) : Bare cs := by
  obtain ⟨c, ds, hdisplay, hc, -⟩ := display_eq_cons_of_keyword ht
  have hread : readToken [] (t.display.toList ++ cs) = .ok (t, cs) := readToken_keyword ht cs
  rw [hdisplay, List.cons_append] at h hread
  obtain ⟨t', ht', rest, heq, hrest⟩ := h.exists_keyword hc
  rw [heq, readToken_keyword ht'] at hread
  obtain ⟨-, rfl⟩ := Prod.mk.inj (Except.ok.inj hread)
  exact hrest

/-! ## In front of the first bracket -/

/-- The text in front of the first `[`. -/
def front (cs : List Char) : List Char := cs.takeWhile (· != '[')

theorem front_bracket (cs : List Char) : front ('[' :: cs) = [] := rfl

theorem front_append (h : '[' ∉ w) (cs : List Char) : front (w ++ cs) = w ++ front cs := by
  refine List.takeWhile_append_of_pos fun c hc => bne_iff_ne.2 ?_
  rintro rfl
  exact h hc

/-- Words and white space in front of others go on with them. -/
theorem Bare.front_append (hw : Bare w) (h : Bare (front cs)) : Bare (front (w ++ cs)) := by
  rw [Lexer.front_append hw.bracket_notMem]
  exact hw.append h

theorem bare_front_blank (hc : isBlank c = true) : Bare (front (c :: cs)) ↔ Bare (front cs) := by
  have hw : Bare [c] := .blank hc .nil
  refine ⟨fun h => ?_, hw.front_append⟩
  rw [show c :: cs = [c] ++ cs from rfl, front_append hw.bracket_notMem] at h
  exact h.of_blank hc

theorem bare_keyword (ht : t ∈ keywords) : Bare t.display.toList := by
  have h := Bare.keyword ht .nil
  rwa [List.append_nil] at h

/-- A word in front of others is one more of them. -/
theorem bare_front_keyword (ht : t ∈ keywords) :
    Bare (front (t.display.toList ++ cs)) ↔ Bare (front cs) := by
  refine ⟨fun h => ?_, (bare_keyword ht).front_append⟩
  rw [front_append (bare_keyword ht).bracket_notMem] at h
  exact h.of_keyword ht

/-! ## Behind the last bracket -/

/-- The text without trailing white space and `)` ends in `]`. -/
def EndsClosed (cs : List Char) : Prop :=
  ∃ v trail, cs = v ++ ']' :: trail ∧ ∀ c ∈ trail, isTrailer c = true

/-- What stands in front of a bracket has no part in how the text ends. -/
theorem endsClosed_append (h : '[' ∈ cs) : EndsClosed (w ++ cs) ↔ EndsClosed cs := by
  constructor
  · rintro ⟨v, trail, heq, htrail⟩
    rcases List.append_eq_append_iff.1 heq with ⟨u, -, rfl⟩ | ⟨u, -, hu⟩
    · exact ⟨u, trail, rfl, htrail⟩
    · -- a bracket that opens is no trailer
      have hmem : '[' ∈ ']' :: trail := hu ▸ List.mem_append_right u h
      rcases List.mem_cons.1 hmem with hc | hc
      · cases hc
      · cases htrail _ hc
  · rintro ⟨v, trail, rfl, htrail⟩
    exact ⟨w ++ v, trail, by rw [List.append_assoc], htrail⟩

theorem continues_of_trail (h : ∀ c ∈ cs, isTrailer c = true) : Continues names cs :=
  ⟨cs, [], (List.append_nil cs).symm, h, .inl rfl⟩

theorem bare_of_trail (h : ∀ c ∈ cs, isTrailer c = true) : Bare cs := by
  induction cs with
  | nil => exact .nil
  | cons c cs ih =>
    have ih := ih fun d hd => h d (List.mem_cons_of_mem c hd)
    have hc : isBlank c = true ∨ c = ')' := by simpa [isTrailer] using h c List.mem_cons_self
    rcases hc with hc | rfl
    · exact .blank hc ih
    · exact .keyword (t := .groupClose) (by decide) ih

/-- What stands between two conditions is made of words and white space. -/
theorem bare_of_separator {last : Char} (h : Separator w last) : Bare w := by
  cases h with
  | and => exact bare_keyword (t := .and) (by decide)
  | or => exact bare_keyword (t := .or) (by decide)
  | blank hc => exact .blank hc .nil

theorem bare_of_approach {before : Char} (h : Approach before w) : Bare w := by
  induction h with
  | done => exact .nil
  | @spacer before c w hc _ ih =>
    have hc : isBlank c = true ∨ c = '(' := by simpa [isSpacer] using hc
    rcases hc with hc | rfl
    · exact .blank hc ih
    · exact .keyword (t := .groupOpen) (by decide) ih
  | not _ _ ih => exact .keyword (t := .not) (by decide) ih

/-- Behind a closing bracket bare text leads to the next bracket, or there are only trailers. -/
theorem front_of_continues (h : Continues names cs) :
    Bare (front cs) ∧ ('[' ∉ cs → ∀ c ∈ cs, isTrailer c = true) := by
  obtain ⟨trail, tail, rfl, htrail, htail⟩ := h
  rcases htail with rfl | ⟨_, ⟨separator, last, items, _, hs, hi, ⟨name, _, mark, _, rfl⟩, rfl⟩, cs, rfl⟩
  · have hbare : Bare (front (trail ++ [])) := (bare_of_trail htrail).front_append .nil
    rw [List.append_nil] at hbare ⊢
    exact ⟨hbare, fun _ => htrail⟩
  · have hbare := (bare_of_trail htrail).append ((bare_of_separator hs).append (bare_of_approach hi))
    have hfront : Bare (front (trail ++ (separator ++ items) ++
        '[' :: (name ++ mark ++ ['='] ++ cs))) := hbare.front_append .nil
    refine ⟨by simpa using hfront, fun hno => ?_⟩
    exact absurd (by simp) hno

/-! ## Texts with tokens -/

/-- In a text of tokens nothing but words and white space stands in front of the first condition. -/
theorem Lexes.bare_front (h : Lexes names cs ts) : Bare (front cs) := by
  induction h with
  | done => exact .nil
  | blank hc _ ih => exact (bare_front_blank hc).2 ih
  | token hread _ ih =>
    rcases keyword_or_condition hread with ht | ⟨b, rfl⟩
    · rw [readToken_eq hread]
      exact (bare_front_keyword ht).2 ih
    · obtain ⟨value, -, rfl, -⟩ := readToken_eq_condition.1 hread
      exact .nil

/-- A text of tokens with a condition in it ends with what may follow one. -/
theorem Lexes.endsClosed (h : Lexes names cs ts) (hopen : '[' ∈ cs) : EndsClosed cs := by
  induction h with
  | done => cases hopen
  | @blank c cs ts hc _ ih =>
    have hmem : '[' ∈ cs := by
      rcases List.mem_cons.1 hopen with rfl | hmem
      · cases hc
      · exact hmem
    exact (endsClosed_append (w := [c]) hmem).2 (ih hmem)
  | @token cs rest t ts hread _ ih =>
    rcases keyword_or_condition hread with ht | ⟨b, rfl⟩
    · rw [readToken_eq hread] at hopen ⊢
      have hmem := (List.mem_append.1 hopen).resolve_left (bare_keyword ht).bracket_notMem
      exact (endsClosed_append hmem).2 (ih hmem)
    · obtain ⟨value, -, rfl, -⟩ := readToken_eq_condition.1 hread
      by_cases hmem : '[' ∈ rest
      · have h := (endsClosed_append (w := '[' :: (value ++ [']'])) hmem).2 (ih hmem)
        simpa using h
      · -- the condition is the last one
        exact ⟨'[' :: value, rest, rfl, (front_of_continues (continues_of_readToken hread)).2 hmem⟩

/-! ## Texts without tokens -/

/-- The text fails to read as tokens, for that reason. -/
inductive Fails (names : List (List Char)) : List Char → QueryError → Prop where
  | here {c : Char} {cs : List Char} {e : QueryError} : isBlank c = false →
      readToken names (c :: cs) = .error e → Fails names (c :: cs) e
  | blank {c : Char} {cs : List Char} {e : QueryError} : isBlank c = true → Fails names cs e →
      Fails names (c :: cs) e
  | token {cs rest : List Char} {t : Token} {e : QueryError} : readToken names cs = .ok (t, rest) →
      Fails names rest e → Fails names cs e

/-- What the lexer reports is an error that the text has. -/
theorem fails_of_lexemesFrom {pos : Nat} (h : lexemesFrom names pos cs = .error e) :
    Fails names cs e := by
  fun_induction lexemesFrom names pos cs with
  | case1 => cases h
  | case2 pos c cs hc ih => exact .blank hc (ih h)
  | case3 pos c cs hc e' hread =>
    cases h
    exact .here (Bool.eq_false_iff.2 hc) hread
  | case4 pos c cs _ t rest hread e' herr ih =>
    cases h
    exact .token hread (ih herr)
  | case5 => cases h

/-- Reading fails in front of the first bracket where the text is not bare, and else for want of a `]`
at the end. -/
theorem Fails.cause (h : Fails names cs e) :
    (¬ Bare (front cs) ∧ ∃ near, e = .unrecognizedToken near) ∨
      (Bare (front cs) ∧ '[' ∈ cs ∧ ¬ EndsClosed cs ∧ ∃ near, e = .unterminatedCondition near) := by
  induction h with
  | @here c cs e hc hread =>
    rcases readToken_eq_error hread with ⟨rfl, hcut, hnear⟩ | ⟨hbracket, hkeyword, hnear⟩
    · refine .inr ⟨.nil, List.mem_cons_self, ?_, hnear⟩
      rintro ⟨v, trail, heq, htrail⟩
      cases v with
      | nil => cases (List.cons.inj heq).1
      | cons d v =>
        exact cut?_eq_none_iff.1 hcut v trail (List.cons.inj heq).2 (continues_of_trail htrail)
    · refine .inl ⟨fun hbare => ?_, hnear⟩
      have hfront : front (c :: cs) = c :: front cs :=
        List.takeWhile_cons_of_pos (bne_iff_ne.2 hbracket)
      rw [hfront] at hbare
      obtain ⟨t, ht, rest, heq, -⟩ := hbare.exists_keyword hc
      refine hkeyword t ht (List.IsPrefix.trans ⟨rest, heq.symm⟩ ?_)
      rw [← hfront]
      exact List.takeWhile_prefix _
  | @blank c cs e hc _ ih =>
    rw [bare_front_blank hc]
    refine ih.imp id ?_
    rintro ⟨hbare, hopen, hend, hnear⟩
    exact ⟨hbare, List.mem_cons_of_mem c hopen,
      fun h => hend ((endsClosed_append (w := [c]) hopen).1 h), hnear⟩
  | @token cs rest t e hread _ ih =>
    rcases keyword_or_condition hread with ht | ⟨b, rfl⟩
    · rw [readToken_eq hread, bare_front_keyword ht]
      refine ih.imp id ?_
      rintro ⟨hbare, hopen, hend, hnear⟩
      exact ⟨hbare, List.mem_append_right _ hopen, fun h => hend ((endsClosed_append hopen).1 h), hnear⟩
    · -- behind a condition only bare text can follow
      have hbare := (front_of_continues (continues_of_readToken hread)).1
      rcases ih with ⟨hno, -⟩ | ⟨-, hopen, hend, hnear⟩
      · exact absurd hbare hno
      · obtain ⟨value, -, rfl, -⟩ := readToken_eq_condition.1 hread
        refine .inr ⟨.nil, List.mem_cons_self, fun h => hend ?_, hnear⟩
        refine (endsClosed_append (w := '[' :: (value ++ [']'])) hopen).1 ?_
        simpa using h

end Lexer

theorem fails_of_tokenize {fields : FieldSet} {query : String} {e : QueryError}
    (h : tokenize fields query = .error e) : Lexer.Fails fields.starts query.toList e := by
  rw [tokenize, lexemes] at h
  cases hls : Lexer.lexemesFrom fields.starts 0 query.toList with
  | error e' =>
    rw [hls] at h
    cases h
    exact Lexer.fails_of_lexemesFrom hls
  | ok ls =>
    rw [hls] at h
    cases h

/-- **Whether a text has tokens.** It has, whatever the known fields, if the text in front of the first
`[` is bare and a text with a `[` ends with a `]` and trailers. Else a text that is not bare there has an
unrecognized token, and any other an unterminated condition. -/
theorem tokenize_outcome (fields : FieldSet) (query : String) :
    ((∃ ts, tokenize fields query = .ok ts) ↔
      Lexer.Bare (Lexer.front query.toList) ∧
        ('[' ∈ query.toList → Lexer.EndsClosed query.toList)) ∧
    ((∃ near, tokenize fields query = .error (.unrecognizedToken near)) ↔
      ¬ Lexer.Bare (Lexer.front query.toList)) ∧
    ((∃ near, tokenize fields query = .error (.unterminatedCondition near)) ↔
      Lexer.Bare (Lexer.front query.toList) ∧ '[' ∈ query.toList ∧
        ¬ Lexer.EndsClosed query.toList) := by
  cases h : tokenize fields query with
  | ok ts =>
    have hlex := tokenize_eq_ok_iff.1 h
    simpa [hlex.bare_front] using hlex.endsClosed
  | error e =>
    rcases (fails_of_tokenize h).cause with ⟨hbare, near, rfl⟩ | ⟨hbare, hopen, hend, near, rfl⟩
    · simp [hbare]
    · simp [hbare, hopen, hend]

end SlotQuery
