import SlotQuery.Proofs.Query.Canonical
import SlotQuery.Proofs.Query.Derivation
import SlotQuery.Proofs.Query.Recognition

/-!
# Expressions side by side

A query spells expressions one behind the other with nothing between them. No expression starts with a
keyword that carries another one on, so the tokens read as selectors exactly where they fall into the
texts of expressions (`readAll_eq_ok_iff`), and such texts can be joined. An expression keeps each
condition of its text, in its place (`Derives.compile_conditionTexts`). Main statement:
`readAll_append_conditions`.
-/

namespace SlotQuery

/-- The texts of the condition tokens in their order. -/
def Token.conditionTexts (ts : List Token) : List String :=
  ts.filterMap fun
    | .condition text => some text
    | _ => none

namespace Token

@[simp] theorem conditionTexts_nil : conditionTexts [] = [] := rfl

@[simp] theorem conditionTexts_condition (text : String) (ts : List Token) :
    conditionTexts (.condition text :: ts) = text :: conditionTexts ts := rfl

@[simp] theorem conditionTexts_keyword {t : Token} (h : ∀ text, t ≠ .condition text)
    (ts : List Token) : conditionTexts (t :: ts) = conditionTexts ts := by
  cases t with
  | condition text => exact absurd rfl (h text)
  | and | or | not | groupOpen | groupClose | endOfInput => rfl

@[simp] theorem conditionTexts_append (ts us : List Token) :
    conditionTexts (ts ++ us) = conditionTexts ts ++ conditionTexts us :=
  List.filterMap_append

end Token

open Token

namespace Grammar

variable {fields : FieldSet} {rule : Rule} {d : Nat} {ts us : List Token} {s : Selector}
  {ss ss' : List Selector}

/-! ## One expression -/

/-- An expression starts with a leaf, so it carries none in front of it on. -/
theorem Derives.stops (h : Derives fields rule d ts s) (rest : List Token) :
    Rule.disjunction.Stops (ts ++ rest) := by
  induction h generalizing rest with
  | condition | not | group => simp [Rule.Stops, Rule.links]
  | ofLeaf _ ih | ofConjunction _ ih => exact ih rest
  | and _ _ ihl _ | or _ _ ihl _ =>
    rw [List.append_assoc]
    exact ihl _

/-- An expression keeps the conditions of its text, one for each condition token and in their order. -/
theorem Derives.compile_conditionTexts (h : Derives fields rule d ts s) :
    (conditionTexts ts).map (Condition.compile fields) = s.conditions.map .ok := by
  induction h with
  | condition hc => simp [Selector.conditions, hc]
  | not _ ih => simpa [Selector.conditions] using ih
  | group _ ih => simpa [Selector.conditions] using ih
  | ofLeaf _ ih | ofConjunction _ ih => exact ih
  | and _ _ ihl ihr | or _ _ ihl ihr => simp [Selector.conditions, ihl, ihr]

/-! ## Expressions one behind the other -/

/-- The tokens fall into the texts of expressions that spell the selectors, none of them with a leaf
below the deepest level. -/
inductive Expressions (fields : FieldSet) : List Token → List Selector → Prop where
  | nil : Expressions fields [] []
  | cons {d : Nat} {ts us : List Token} {s : Selector} {ss : List Selector} :
      Derives fields .disjunction d ts s → d ≤ maxNesting → Expressions fields us ss →
      Expressions fields (ts ++ us) (s :: ss)

/-- Expressions in a row, followed by more of them. -/
theorem Expressions.append (h : Expressions fields ts ss) (h' : Expressions fields us ss') :
    Expressions fields (ts ++ us) (ss ++ ss') := by
  induction h with
  | nil => exact h'
  | cons hder hd _ ih =>
    rw [List.append_assoc]
    exact .cons hder hd ih

theorem Expressions.stops (h : Expressions fields ts ss) : Rule.disjunction.Stops ts := by
  cases h with
  | nil => simp [Rule.Stops]
  | cons hder _ _ => exact hder.stops _

/-- The conditions of the selectors are those of the tokens, in their order. -/
theorem Expressions.compile_conditionTexts (h : Expressions fields ts ss) :
    (conditionTexts ts).map (Condition.compile fields) =
      (ss.flatMap Selector.conditions).map .ok := by
  induction h with
  | nil => rfl
  | cons hder _ _ ih => simp [hder.compile_conditionTexts, ih]

end Grammar

open Grammar

/-- Nothing that a text is read as is the end of input. -/
theorem Lexer.Lexes.endOfInput_notMem {names : List (List Char)} {cs : List Char} {ts : List Token}
    (h : Lexes names cs ts) : .endOfInput ∉ ts := by
  induction h with
  | done => exact List.not_mem_nil
  | blank _ _ ih => exact ih
  | token hread _ ih =>
    intro hmem
    rcases List.mem_cons.1 hmem with rfl | hmem
    · rcases keyword_or_condition hread with hkeyword | ⟨b, hb⟩
      · revert hkeyword
        decide
      · cases hb
    · exact ih hmem

namespace SelectorSet

variable {fields : FieldSet} {ts : List Token} {ss : List Selector}

/-- Expressions in a row are all read. -/
theorem readAll_of_expressions (h : Expressions fields ts ss) : readAll fields ts = .ok ss := by
  induction h with
  | nil => rw [readAll]
  | @cons d ts us s ss hder hd hrest ih =>
    have hread : readExpression fields (ts ++ us) = (.ok s, us) :=
      hder.read (Nat.lt_succ_of_le hd) hrest.stops
    rw [readAll_of_ok hread, ih]
    rfl

/-- What is read without an end in it are expressions in a row. -/
theorem expressions_of_readAll (hend : .endOfInput ∉ ts) (h : readAll fields ts = .ok ss) :
    Expressions fields ts ss := by
  fun_induction readAll fields ts generalizing ss with
  | case1 =>
    cases h
    exact .nil
  | case2 => exact absurd List.mem_cons_self hend
  | case3 | case4 => cases h
  | case5 t ts _ s rest hread ss' hall ih =>
    cases h
    obtain ⟨us, d, hts, hd, hder, -⟩ := level_sound fields _ .disjunction _ _ _ hread
    rw [hts] at hend ⊢
    have hrest : .endOfInput ∉ rest := fun hmem => hend (List.mem_append_right us hmem)
    exact .cons hder (Nat.le_of_lt_succ hd) (ih hrest hall)

/-- Reading all tokens succeeds exactly where they fall into the texts of expressions. -/
theorem readAll_eq_ok_iff (hend : .endOfInput ∉ ts) :
    readAll fields ts = .ok ss ↔ Expressions fields ts ss :=
  ⟨expressions_of_readAll hend, readAll_of_expressions⟩

/-- **Side by side means one after the other.** Where two token lists read as selectors, their
concatenation reads as the selectors of the first one followed by those of the second one. The
conditions of a compiled query are those of its condition tokens, none lost, repeated or in another
place. -/
theorem readAll_append_conditions (fields : FieldSet) :
    (∀ ts us ss ss', .endOfInput ∉ ts → .endOfInput ∉ us → readAll fields ts = .ok ss →
      readAll fields us = .ok ss' → readAll fields (ts ++ us) = .ok (ss ++ ss')) ∧
    ∀ query set, compile fields query = .ok set → ∃ ts, tokenize fields query = .ok ts ∧
      (conditionTexts ts).map (Condition.compile fields) =
        (set.selectors.flatMap Selector.conditions).map .ok := by
  constructor
  · intro ts us ss ss' hts hus hss hss'
    rw [readAll_eq_ok_iff hts] at hss
    rw [readAll_eq_ok_iff hus] at hss'
    exact readAll_of_expressions (hss.append hss')
  · intro query set hset
    obtain ⟨ts, htokens, hall⟩ := compile_eq_ok hset
    have hend := (tokenize_eq_ok_iff.1 htokens).endOfInput_notMem
    exact ⟨ts, htokens, (expressions_of_readAll hend hall).compile_conditionTexts⟩

/-- A group at the end of the first expression and a negation at the start of the second one, with only
white space between them in a query. -/
theorem readAll_append_conditions_group_not :
    ∃ s s', let fields := FieldSet.ofList ["a"]
      let ts := [.condition "[a=1]", .and, .groupOpen, .condition "[a=2]", .groupClose]
      let us := [.not, .condition "[a=3]"]
      readAll fields ts = .ok [s] ∧ readAll fields us = .ok [s'] ∧
      readAll fields (ts ++ us) = .ok [s, s'] ∧
      compile fields "[a=1] AND ([a=2]) NOT [a=3]" = .ok ⟨[s, s']⟩ ∧
      ["[a=1]", "[a=2]", "[a=3]"].map (Condition.compile fields) =
        (s.conditions ++ s'.conditions).map .ok := by
  have hfirst : ∃ s, readExpression (FieldSet.ofList ["a"])
      [.condition "[a=1]", .and, .groupOpen, .condition "[a=2]", .groupClose] = (.ok s, []) :=
    ⟨_, rfl⟩
  have hsecond : ∃ s, readExpression (FieldSet.ofList ["a"]) [.not, .condition "[a=3]"] =
      (.ok s, []) :=
    ⟨_, rfl⟩
  obtain ⟨s, hs⟩ := hfirst
  obtain ⟨s', hs'⟩ := hsecond
  have hts := readAll_of_ok hs
  have hus := readAll_of_ok hs'
  rw [readAll] at hts hus
  obtain ⟨hjoined, hconditions⟩ := readAll_append_conditions (FieldSet.ofList ["a"])
  have hall := hjoined _ _ _ _ (by decide) (by decide) hts hus
  have htokens : tokenize (FieldSet.ofList ["a"]) "[a=1] AND ([a=2]) NOT [a=3]" =
      .ok [.condition "[a=1]", .and, .groupOpen, .condition "[a=2]", .groupClose, .not,
        .condition "[a=3]"] := by
    cbv
  have hset : compile (FieldSet.ofList ["a"]) "[a=1] AND ([a=2]) NOT [a=3]" = .ok ⟨[s, s']⟩ := by
    rw [compile_of_tokenize htokens]
    exact congrArg (Except.map SelectorSet.mk) hall
  obtain ⟨ts, hts', hcompiled⟩ := hconditions _ _ hset
  obtain rfl := Except.ok.inj (htokens.symm.trans hts')
  refine ⟨s, s', hts, hus, hall, hset, ?_⟩
  simpa using hcompiled

end SelectorSet

end SlotQuery
