import SlotQuery.Proofs.Query.Lexing

/-!
# Tokens between conditions

Each condition token ends where the rule of `Boundary.Continues` holds, and the strings that the rule
asks for read as the tokens of a `Joint`. The condition behind a joint starts with a known name, so that
it cannot fail for its field. Main statement: `tokenize_joints`.
-/

namespace SlotQuery

open Text Boundary

namespace Lexer

variable {names : List (List Char)} {cs rest : List Char} {ts : List Token}

/-! ## Between two conditions -/

/-- Tokens between two conditions: groups are closed, a keyword may join, and what follows is negated
or opens groups. -/
def Joint (ts : List Token) : Prop :=
  ∃ closing link opening, ts = closing ++ link ++ opening ∧ (∀ t ∈ closing, t = .groupClose) ∧
    (link = [] ∨ link = [.and] ∨ link = [.or]) ∧ ∀ t ∈ opening, t = .not ∨ t = .groupOpen

theorem Joint.condition_notMem (h : Joint ts) (b : String) : .condition b ∉ ts := by
  obtain ⟨closing, link, opening, rfl, hclosing, hlink, hopening⟩ := h
  simp only [List.mem_append, not_or]
  refine ⟨⟨fun hb => ?_, fun hb => ?_⟩, fun hb => ?_⟩
  · cases hclosing _ hb
  · rcases hlink with rfl | rfl | rfl <;> simp at hb
  · rcases hopening _ hb with h | h <;> cases h

/-- A trail consists of closed groups, a separator of one link or none, and an approach of negations and
opened groups; the next condition follows. -/
theorem Lexes.of_trail {trail : List Char} (htrail : ∀ c ∈ trail, isTrailer c = true)
    (h : Lexes names (trail ++ cs) ts) :
    ∃ closing us, ts = closing ++ us ∧ (∀ t ∈ closing, t = .groupClose) ∧ Lexes names cs us := by
  induction trail generalizing ts with
  | nil => exact ⟨[], ts, rfl, by simp, h⟩
  | cons c trail ih =>
    have ih := fun {us} (hus : Lexes names (trail ++ cs) us) =>
      ih (fun d hd => htrail d (List.mem_cons_of_mem c hd)) hus
    have hc : isBlank c = true ∨ c = ')' := by simpa [isTrailer] using htrail c List.mem_cons_self
    rcases hc with hc | rfl
    · exact ih (h.of_blank hc)
    · obtain ⟨us, rfl, hus⟩ := h.of_token rfl
      obtain ⟨closing, vs, rfl, hclosing, hvs⟩ := ih hus
      exact ⟨.groupClose :: closing, vs, rfl, by simpa using hclosing, hvs⟩

theorem Lexes.of_separator {separator : List Char} {last : Char} (hs : Separator separator last)
    (h : Lexes names (separator ++ cs) ts) :
    ∃ link us, ts = link ++ us ∧ (link = [] ∨ link = [.and] ∨ link = [.or]) ∧
      Lexes names cs us := by
  cases hs with
  | and =>
    obtain ⟨us, rfl, hus⟩ := h.of_token rfl
    exact ⟨[.and], us, rfl, by simp, hus⟩
  | or =>
    obtain ⟨us, rfl, hus⟩ := h.of_token rfl
    exact ⟨[.or], us, rfl, by simp, hus⟩
  | blank hc => exact ⟨[], ts, rfl, by simp, h.of_blank hc⟩

theorem Lexes.of_approach {before : Char} {items : List Char} (hi : Approach before items)
    (h : Lexes names (items ++ cs) ts) :
    ∃ opening us, ts = opening ++ us ∧ (∀ t ∈ opening, t = .not ∨ t = .groupOpen) ∧
      Lexes names cs us := by
  induction hi generalizing ts with
  | done => exact ⟨[], ts, rfl, by simp, h⟩
  | @spacer before c items hc _ ih =>
    have hc : isBlank c = true ∨ c = '(' := by simpa [isSpacer] using hc
    rcases hc with hc | rfl
    · exact ih (h.of_blank hc)
    · obtain ⟨us, rfl, hus⟩ := h.of_token rfl
      obtain ⟨opening, vs, rfl, hopening, hvs⟩ := ih hus
      exact ⟨.groupOpen :: opening, vs, rfl, by simpa using hopening, hvs⟩
  | not _ _ ih =>
    obtain ⟨us, rfl, hus⟩ := h.of_token rfl
    obtain ⟨opening, vs, rfl, hopening, hvs⟩ := ih hus
    exact ⟨.not :: opening, vs, rfl, by simpa using hopening, hvs⟩

theorem Lexes.of_opening {w : List Char} (ho : Opening names w) (h : Lexes names (w ++ cs) ts) :
    ∃ b us rest, ts = .condition b :: us ∧ readToken names (w ++ cs) = .ok (.condition b, rest) ∧
      Lexes names rest us := by
  obtain ⟨name, _, mark, _, rfl⟩ := ho
  cases h with
  | blank hc _ => cases hc
  | @token _ rest t us hread h =>
    have hread' := hread
    simp only [List.cons_append, readToken] at hread'
    split at hread'
    · cases hread'
      exact ⟨_, us, rest, rfl, hread, h⟩
    · cases hread'

/-- The token is read where a condition on one of the names starts. -/
def Expected (names : List (List Char)) (b : String) : Prop :=
  ∃ w cs rest, Opening names w ∧ readToken names (w ++ cs) = .ok (.condition b, rest)

/-- Behind a closing bracket stand closing parentheses only, or a joint and a condition that starts
with a name. -/
theorem tokens_of_continues (hcont : Continues names cs) (h : Lexes names cs ts) :
    (∀ t ∈ ts, t = .groupClose) ∨
      ∃ joint b us rest, ts = joint ++ .condition b :: us ∧ Joint joint ∧ Expected names b ∧
        Continues names rest ∧ Lexes names rest us := by
  obtain ⟨trail, tail, rfl, htrail, htail⟩ := hcont
  obtain ⟨closing, us, rfl, hclosing, h⟩ := h.of_trail htrail
  rcases htail with rfl | ⟨_, ⟨separator, last, items, w, hs, hi, ho, rfl⟩, cs, rfl⟩
  · cases h
    · exact .inl (by simpa using hclosing)
    · next hread => cases hread
  · simp only [List.append_assoc] at h
    obtain ⟨link, us, rfl, hlink, h⟩ := h.of_separator hs
    obtain ⟨opening, us, rfl, hopening, h⟩ := h.of_approach hi
    obtain ⟨b, us, rest, rfl, hread, h⟩ := h.of_opening ho
    refine .inr ⟨closing ++ link ++ opening, b, us, rest, by simp, ?_, ?_, ?_, h⟩
    · exact ⟨closing, link, opening, rfl, hclosing, hlink, hopening⟩
    · exact ⟨w, cs, rest, ho, hread⟩
    · exact continues_of_readToken hread

/-- Every condition behind a closing bracket is expected. -/
theorem expected_of_continues {b : String} (hcont : Continues names cs) (h : Lexes names cs ts)
    (hb : .condition b ∈ ts) : Expected names b := by
  induction hn : ts.length using Nat.strongRecOn generalizing cs ts with
  | ind n ih =>
    subst hn
    rcases tokens_of_continues hcont h with hclose | ⟨joint, b', us, rest, rfl, hj, he, hcont', h'⟩
    · cases hclose _ hb
    · simp only [List.mem_append, List.mem_cons, hj.condition_notMem, false_or,
        Token.condition.injEq] at hb
      rcases hb with rfl | hb
      · exact he
      · exact ih us.length (by simp; omega) hcont' h' hb rfl

theorem append_condition_inj {mid mid' post post' : List Token} {b b' : String}
    (h : mid ++ .condition b :: post = mid' ++ .condition b' :: post')
    (hmid : ∀ x, .condition x ∉ mid) (hmid' : ∀ x, .condition x ∉ mid') : mid = mid' := by
  induction mid generalizing mid' with
  | nil =>
    cases mid' with
    | nil => rfl
    | cons t mid' =>
      obtain ⟨rfl, -⟩ := List.cons.inj h
      exact absurd List.mem_cons_self (hmid' b)
  | cons t mid ih =>
    cases mid' with
    | nil =>
      obtain ⟨rfl, -⟩ := List.cons.inj h
      exact absurd List.mem_cons_self (hmid b')
    | cons t' mid' =>
      obtain ⟨rfl, htail⟩ := List.cons.inj h
      rw [ih htail (fun x hx => hmid x (List.mem_cons_of_mem t hx))
        fun x hx => hmid' x (List.mem_cons_of_mem t hx)]

end Lexer

/-! ## Expected conditions compile or hold a bad pattern -/

/-- A name that the look-ahead and the condition compiler read alike. -/
structure FieldSet.Tidy (name : String) : Prop where
  bracket_notMem : ']' ∉ name.toList
  equals_notMem : '=' ∉ name.toList
  lineFeed_notMem : '\n' ∉ name.toList
  trim_eq : trim name = name
  last_notMem : ∀ c ∈ name.toList.getLast?, c ∉ ['!', '~', '$', '^', '*', '/']

theorem FieldSet.Tidy.clean {name : String} (h : FieldSet.Tidy name) : Condition.Clean name where
  plain := by
    refine ⟨h.equals_notMem, h.lineFeed_notMem, fun c hc hm => ?_⟩
    have hne : c ≠ '=' := fun he => h.equals_notMem (he ▸ List.mem_of_getLast? hc)
    refine h.last_notMem c hc ?_
    simpa [Operator.marks, hne] using hm
  trimmed := by
    have htrim := congrArg String.toList h.trim_eq
    rwa [trim, String.toList_ofList] at htrim

theorem compile_of_expected {fields : FieldSet} (hknown : fields.names ≠ [])
    (htidy : ∀ name ∈ fields.names, FieldSet.Tidy name) {b : String}
    (h : Lexer.Expected fields.starts b) :
    ∃ name ∈ fields.names, ∃ op value, '[' :: name.toList <+: b.toList ∧
      Condition.compile fields b = Condition.make name op value := by
  obtain ⟨_, cs, rest, ⟨_, hstart, mark, hmark, rfl⟩, hread⟩ := h
  rw [FieldSet.starts_of_ne_nil hknown] at hstart
  obtain ⟨name, hname, rfl⟩ := List.mem_map.1 hstart
  have hclean := (htidy name hname).clean
  obtain ⟨value, hb, heq, -⟩ := Lexer.readToken_eq_condition.1 hread
  -- the closing bracket lies behind the comparison
  have hpre : name.toList ++ mark ++ ['='] <+: value := by
    have hmem : ']' ∉ name.toList ++ mark ++ ['='] := by
      simp [(htidy name hname).bracket_notMem, bracket_notMem_mark hmark]
    have hprefix : name.toList ++ mark ++ ['='] <+: value ++ ']' :: rest :=
      ⟨cs, by simpa using heq⟩
    exact prefix_of_prefix_append hprefix hmem
  obtain ⟨tail, rfl⟩ := hpre
  obtain ⟨op, v, hcmp⟩ := Condition.splitComparison_comparison hmark tail
  have htrim : trimLeft (name.toList ++ mark ++ ['='] ++ tail) =
      name.toList ++ (mark ++ '=' :: tail) := by
    simp only [List.append_assoc, List.singleton_append]
    rcases hmark with rfl | ⟨m, hm, rfl⟩
    · exact hclean.trimLeft_append (by decide) tail
    · exact hclean.trimLeft_append (Condition.isBlank_of_mem_marks hm) _
  have hsplit : Condition.splitComparison (trimLeft (name.toList ++ mark ++ ['='] ++ tail)) =
      some (name.toList, op, v) := by
    rw [htrim, Condition.splitComparison_append hclean.plain, hcmp]
    simp
  refine ⟨name, hname, op, String.ofList v, ?_, ?_⟩
  · rw [hb]
    exact ⟨mark ++ ['='] ++ tail ++ [']'], by simp⟩
  · exact Condition.compile_brackets hb hsplit hclean.trimmed hname

/-! ## Tokens of a query -/

/-- **Tokens between conditions.** Between two conditions stands a joint, behind the last one only
groups are closed, and with tidy names every condition but the first starts with the name of its field
and fails for nothing but its pattern. -/
theorem tokenize_joints (fields : FieldSet) (query : String) (ts : List Token)
    (h : tokenize fields query = .ok ts) :
    (∀ pre a mid b post, ts = pre ++ .condition a :: (mid ++ .condition b :: post) →
      (∀ x, .condition x ∉ mid) → Lexer.Joint mid) ∧
    (∀ pre a post, ts = pre ++ .condition a :: post → (∀ x, .condition x ∉ post) →
      ∀ t ∈ post, t = .groupClose) ∧
    (fields.names ≠ [] → (∀ name ∈ fields.names, FieldSet.Tidy name) →
      ∀ pre a mid b post, ts = pre ++ .condition a :: (mid ++ .condition b :: post) →
        ∃ name ∈ fields.names, ∃ op value, '[' :: name.toList <+: b.toList ∧
          Condition.compile fields b = Condition.make name op value ∧
          (∀ c, Condition.compile fields b = .ok c → c.field = name) ∧
          ∀ e, Condition.compile fields b = .error e → e = .invalidPattern value) := by
  have hlex := tokenize_eq_ok_iff.1 h
  refine ⟨fun pre a mid b post hts hmid => ?_, fun pre a post hts hpost => ?_,
    fun hknown htidy pre a mid b post hts => ?_⟩
  · obtain ⟨rest, hcont, hrest⟩ := hlex.after_condition hts
    rcases Lexer.tokens_of_continues hcont hrest with hclose | ⟨joint, b', us, _, heq, hj, -⟩
    · cases hclose (.condition b) (by simp)
    · rwa [Lexer.append_condition_inj heq hmid hj.condition_notMem]
  · obtain ⟨rest, hcont, hrest⟩ := hlex.after_condition hts
    rcases Lexer.tokens_of_continues hcont hrest with hclose | ⟨joint, b', us, _, rfl, -⟩
    · exact hclose
    · exact absurd (by simp) (hpost b')
  · obtain ⟨rest, hcont, hrest⟩ := hlex.after_condition hts
    have hb := Lexer.expected_of_continues hcont hrest (b := b) (by simp)
    obtain ⟨name, hname, op, value, hpre, hmake⟩ := compile_of_expected hknown htidy hb
    refine ⟨name, hname, op, value, hpre, hmake, fun c hc => ?_, fun e he => ?_⟩
    · exact (Condition.make_eq_ok (hmake ▸ hc)).1
    · exact Condition.make_eq_error (hmake ▸ he)

/-- Behind `[z=1]` stand a joint and a condition with a known field and a bad pattern. -/
theorem tokenize_joints_bad_pattern :
    tokenize (FieldSet.ofList ["a"]) "[z=1]) AND NOT ([a/=(])" =
        .ok [.condition "[z=1]", .groupClose, .and, .not, .groupOpen, .condition "[a/=(]",
          .groupClose] ∧
      Lexer.Joint [.groupClose, .and, .not, .groupOpen] ∧
      (∀ name ∈ (FieldSet.ofList ["a"]).names, FieldSet.Tidy name) ∧
      ∃ name ∈ (FieldSet.ofList ["a"]).names, '[' :: name.toList <+: "[a/=(]".toList := by
  have htokens : tokenize (FieldSet.ofList ["a"]) "[z=1]) AND NOT ([a/=(])" =
      .ok [.condition "[z=1]", .groupClose, .and, .not, .groupOpen, .condition "[a/=(]",
        .groupClose] := by
    cbv
  have htidy : ∀ name ∈ (FieldSet.ofList ["a"]).names, FieldSet.Tidy name := by
    intro name hname
    obtain rfl : name = "a" := List.mem_singleton.1 hname
    refine ⟨by decide, by decide, by decide, by decide, fun c hc => ?_⟩
    obtain rfl : 'a' = c := Option.some.inj hc
    decide
  obtain ⟨hjoint, -, hfield⟩ := tokenize_joints _ _ _ htokens
  refine ⟨htokens, ?_, htidy, ?_⟩
  · exact hjoint [] _ [.groupClose, .and, .not, .groupOpen] _ [.groupClose] rfl (by simp)
  · obtain ⟨name, hname, -, -, hpre, -⟩ := hfield (by decide) htidy [] _
      [.groupClose, .and, .not, .groupOpen] _ [.groupClose] rfl
    exact ⟨name, hname, hpre⟩

end SlotQuery
