import Mathlib.Data.List.TakeWhile
import SlotQuery.Proofs.Query.Split
import SlotQuery.Proofs.Query.Terminator
import SlotQuery.Proofs.Regex.Preference

/-!
# The first comparison of a condition

`Condition.splitComparison` walks along the body of a condition. Here its result is told from the first
`=` of the body (`splitComparison_eq_filter`), and it is what a pattern captures whose field part prefers
to be short (`splitComparison_eq_ofWords?`, `splitComparison_isSome_iff`). Main statements:
`compile_closedForm`, how every condition text compiles, and `compile_spaced_field`, which white space
around a field is ignored.
-/

namespace SlotQuery

open Text Regex

namespace Condition

/-! ## The split in closed form -/

/-- What the first `=` of the text tells: the part in front of it up to the mark, if that is the last
character there, the operator, and the value. Without a mark a second `=` directly behind the first one
belongs to the comparison. -/
def firstComparison? (cs : List Char) : Option (List Char × Operator × List Char) :=
  match cs.dropWhile (· != '=') with
  | [] => none
  | _ :: behind =>
    let front := cs.takeWhile (· != '=')
    match front.getLast?.bind Operator.ofMark? with
    | some op => some (front.dropLast, op, behind)
    | none => some (front, .equals, if behind.head? = some '=' then behind.tail else behind)

theorem firstComparison?_equals (cs : List Char) : firstComparison? ('=' :: cs) =
    some ([], .equals, if cs.head? = some '=' then cs.tail else cs) := by
  simp [firstComparison?]

theorem firstComparison?_mark {c : Char} {op : Operator} (hop : Operator.ofMark? c = some op)
    (hc : c ≠ '=') (value : List Char) :
    firstComparison? (c :: '=' :: value) = some ([], op, value) := by
  simp [firstComparison?, hc, hop]

/-- A character in front of the first `=` that is no mark belongs to the part in front. -/
theorem firstComparison?_cons {c : Char} {cs : List Char} (hc : c ≠ '=')
    (hmark : ∀ op value, Operator.ofMark? c = some op → cs = '=' :: value → False) :
    firstComparison? (c :: cs) =
      (firstComparison? cs).map fun (part, op, value) => (c :: part, op, value) := by
  match cs with
  | [] => simp [firstComparison?, hc]
  | d :: ds =>
    by_cases hd : d = '='
    · subst hd
      have hnone : Operator.ofMark? c = none :=
        Option.eq_none_iff_forall_ne_some.2 fun op hop => hmark op ds hop rfl
      rw [firstComparison?_equals]
      simp [firstComparison?, hc, hnone]
    · -- the last character of the part in front is the same with and without the first
      have hlast (front : List Char) : (c :: d :: front).getLast? = (d :: front).getLast? := by
        rw [List.getLast?_cons_cons]
      simp only [firstComparison?, List.dropWhile_cons, List.takeWhile_cons, bne_iff_ne, ne_eq, hc, hd,
        not_false_eq_true, if_true, hlast]
      cases ds.dropWhile (· != '=') with
      | nil => rfl
      | cons e behind =>
        simp only
        cases (d :: ds.takeWhile (· != '=')).getLast?.bind Operator.ofMark? <;> rfl

/-- Where neither `=` nor a mark at its end is in it, all of a text in front belongs to the part in
front. -/
theorem firstComparison?_append {front : List Char} (hequals : '=' ∉ front)
    (hlast : ∀ c ∈ front.getLast?, c ∉ Operator.marks) (cs : List Char) :
    firstComparison? (front ++ cs) =
      (firstComparison? cs).map fun (part, op, value) => (front ++ part, op, value) := by
  have hfront : ∀ c ∈ front, (c != '=') = true := fun c hc => by
    rw [bne_iff_ne]
    exact fun h => hequals (h ▸ hc)
  have hnone : front.getLast?.bind Operator.ofMark? = none := by
    rw [Option.bind_eq_none_iff]
    intro c hc
    rw [← Option.not_isSome_iff_eq_none, Operator.ofMark?_isSome_iff]
    exact hlast c hc
  simp only [firstComparison?, List.dropWhile_append_of_pos hfront,
    List.takeWhile_append_of_pos hfront]
  cases cs.dropWhile (· != '=') with
  | nil => rfl
  | cons e behind =>
    -- the last character in front of the `=` is that of the second text, if it has one there
    rcases List.eq_nil_or_concat (cs.takeWhile (· != '=')) with hempty | ⟨init, last, hconcat⟩
    · simp [hempty, hnone]
    · simp only [hconcat, List.concat_eq_append, ← List.append_assoc, List.getLast?_concat,
        List.dropLast_concat, Option.bind_some]
      cases Operator.ofMark? last <;> simp

theorem firstComparison?_eq_none_iff {cs : List Char} : firstComparison? cs = none ↔ '=' ∉ cs := by
  have hdrop : cs.dropWhile (· != '=') = [] ↔ '=' ∉ cs := by
    rw [List.dropWhile_eq_nil_iff]
    grind
  rw [firstComparison?, ← hdrop]
  split
  · next h => simp [h]
  · next h =>
    rw [h]
    simp only
    split <;> simp

theorem head?_ne_equals {cs : List Char} (h : ∀ value, cs = '=' :: value → False) :
    cs.head? ≠ some '=' := by
  intro hhead
  obtain ⟨value, heq⟩ := List.head?_eq_some_iff.1 hhead
  exact h value heq

/-- The walk finds the first comparison if no line feed stands in front of it. -/
theorem splitComparison_eq_filter (cs : List Char) :
    splitComparison cs = (firstComparison? cs).filter fun split => '\n' ∉ split.1 := by
  fun_induction splitComparison cs with
  | case1 => rfl
  | case2 c op value hop =>
    by_cases hc : c = '='
    · subst hc
      cases hop
      rfl
    · rw [firstComparison?_mark hop hc]
      rfl
  | case3 cs hmark =>
    rw [firstComparison?_equals, if_neg (head?_ne_equals fun value => hmark .equals value rfl)]
    rfl
  | case4 cs hc hmark =>
    rw [firstComparison?_cons hc hmark]
    cases firstComparison? cs <;> simp [Option.filter_some]
  | case5 c cs hc hn hmark ih =>
    rw [firstComparison?_cons hc hmark, ih]
    cases firstComparison? cs with
    | none => rfl
    | some split =>
      simp only [Option.map_some, Option.filter_some, List.mem_cons, Ne.symm hn, false_or]
      split <;> rfl

theorem splitComparison_eq_none_iff {cs : List Char} : splitComparison cs = none ↔
    '=' ∉ cs ∨ ∃ part op value, firstComparison? cs = some (part, op, value) ∧ '\n' ∈ part := by
  rw [splitComparison_eq_filter, ← firstComparison?_eq_none_iff]
  cases firstComparison? cs with
  | none => simp
  | some split => simp [Option.filter_some, Prod.ext_iff]

/-! ## The split as a pattern -/

/-- `(.*?)` -/
def fieldStep : Step := .lazyRun (.compl (.only '\n'))

/-- `([!=~$^*/]?)` -/
def symbolStep : Step := .optional ((Operator.marks.map CharSet.only).foldl CharSet.union CharSet.nothing)

/-- `=` -/
def equalsStep : Step := .once (.only '=')

/-- `((?s:.*))` -/
def valueStep : Step := .greedyRun .anything

/-- The steps by which a body is split. -/
def steps : List Step := [fieldStep, symbolStep, equalsStep, valueStep]

/-- The pattern of the steps, three of them in groups. -/
def pattern : Regex :=
  Regex.sequence [.anchor .textStart, Regex.sequence [fieldStep.toRegex],
    Regex.sequence [symbolStep.toRegex], equalsStep.toRegex,
    Regex.sequence [Regex.sequence [valueStep.toRegex]], .anchor .textEnd]

example : Regex.parse? {} "^(.*?)([!=~$^*/]?)=((?s:.*))$".toList = some pattern := by decide +kernel

/-- The split that the words of the steps spell: field part, operator and value. -/
def ofWords? : List (List Char) → Option (List Char × Operator × List Char)
  | [field, symbol, _, value] =>
    (Operator.ofSymbol? (String.ofList symbol)).map fun op => (field, op, value)
  | _ => none

theorem ofWords?_modifyHead (c : Char) (words : List (List Char)) :
    ofWords? (words.modifyHead (c :: ·)) =
      (ofWords? words).map fun (field, op, value) => (c :: field, op, value) := by
  rcases words with _ | ⟨field, _ | ⟨symbol, _ | ⟨mark, _ | ⟨value, _ | _⟩⟩⟩⟩
  case cons.cons.cons.cons.nil =>
    simp only [List.modifyHead_cons, ofWords?, Option.map_map]
    rfl
  all_goals rfl

theorem ofWords?_bare (field value : List Char) :
    ofWords? [field, [], ['='], value] = some (field, .equals, value) := by
  simp [ofWords?, Operator.ofSymbol?]

theorem ofWords?_marked {c : Char} {op : Operator} (h : Operator.ofMark? c = some op)
    (field value : List Char) : ofWords? [field, [c], ['='], value] = some (field, op, value) := by
  simp [ofWords?, Operator.ofSymbol?, h]

theorem firstSplit?_equals (value : List Char) :
    firstSplit? [equalsStep, valueStep] ('=' :: value) = some [['='], value] := by
  have hvalue : firstSplit? [valueStep] value = some [value] := firstSplit?_greedyRun fun c _ => rfl
  rw [equalsStep, firstSplit?_once_cons, hvalue]
  rfl

theorem firstSplit?_equals_eq_none {cs : List Char} (h : cs.head? ≠ some '=') :
    firstSplit? [equalsStep, valueStep] cs = none := by
  cases cs with
  | nil => rfl
  | cons c cs =>
    have hc : (CharSet.only '=').contains c = false := by
      rw [CharSet.contains_only, beq_eq_false_iff_ne]
      exact fun hc => h (hc ▸ rfl)
    rw [equalsStep, firstSplit?_once_cons, hc]
    rfl

theorem contains_marks {c : Char} :
    ((Operator.marks.map CharSet.only).foldl CharSet.union CharSet.nothing).contains c = true ↔
      c ∈ Operator.marks := by
  rw [Terminator.contains_union]
  simp [CharSet.contains_only, CharSet.nothing, CharSet.contains]

/-- A mark is taken where an `=` follows it. -/
theorem firstSplit?_symbol_cons (c : Char) (cs : List Char) :
    firstSplit? [symbolStep, equalsStep, valueStep] (c :: cs) =
      (if c ∈ Operator.marks then (firstSplit? [equalsStep, valueStep] cs).map ([c] :: ·)
        else none).or ((firstSplit? [equalsStep, valueStep] (c :: cs)).map ([] :: ·)) := by
  rw [symbolStep, firstSplit?_optional, firstSplit?_once_cons]
  simp only [contains_marks]

theorem firstSplit?_symbol_eq_none {c : Char} {cs : List Char} (hc : c ≠ '=')
    (hmark : ∀ op value, Operator.ofMark? c = some op → cs = '=' :: value → False) :
    firstSplit? [symbolStep, equalsStep, valueStep] (c :: cs) = none := by
  have hhead : (c :: cs).head? ≠ some '=' := fun h => hc (Option.some.inj h)
  rw [firstSplit?_symbol_cons, firstSplit?_equals_eq_none hhead]
  split
  · next hmem =>
    obtain ⟨op, hop⟩ := Option.isSome_iff_exists.1 (Operator.ofMark?_isSome_iff.2 hmem)
    rw [firstSplit?_equals_eq_none (head?_ne_equals fun value => hmark op value hop)]
    rfl
  · rfl

/-- The field part stays empty if what is behind it can be read here, and else takes a character, but no
line feed. -/
theorem firstSplit?_steps_cons (c : Char) (cs : List Char) : firstSplit? steps (c :: cs) =
    ((firstSplit? [symbolStep, equalsStep, valueStep] (c :: cs)).map ([] :: ·)).or
      (if c = '\n' then none else (firstSplit? steps cs).map (·.modifyHead (c :: ·))) := by
  have hc : (CharSet.compl (.only '\n')).contains c = true ↔ ¬ c = '\n' := by
    simp [CharSet.contains, CharSet.contains_only]
  rw [steps, fieldStep, firstSplit?_lazyRun_cons]
  simp only [hc, ite_not]

/-- The walk finds what the pattern captures. -/
theorem splitComparison_eq_ofWords? (cs : List Char) :
    splitComparison cs = (firstSplit? steps cs).bind ofWords? := by
  fun_induction splitComparison cs with
  | case1 => rfl
  | case2 c op value hop =>
    have hmark : c ∈ Operator.marks := Operator.ofMark?_isSome_iff.1 (by rw [hop]; rfl)
    rw [firstSplit?_steps_cons, firstSplit?_symbol_cons, if_pos hmark, firstSplit?_equals]
    exact (ofWords?_marked hop [] value).symm
  | case3 cs hmark =>
    have hhead : cs.head? ≠ some '=' := head?_ne_equals fun value => hmark .equals value rfl
    rw [firstSplit?_steps_cons, firstSplit?_symbol_cons, firstSplit?_equals_eq_none hhead,
      firstSplit?_equals]
    exact (ofWords?_bare [] cs).symm
  | case4 cs hc hmark =>
    rw [firstSplit?_steps_cons, firstSplit?_symbol_eq_none hc hmark]
    rfl
  | case5 c cs hc hn hmark ih =>
    rw [firstSplit?_steps_cons, firstSplit?_symbol_eq_none hc hmark, if_neg hn, ih]
    cases firstSplit? steps cs with
    | none => rfl
    | some words => exact (ofWords?_modifyHead c words).symm

/-- What the steps read always spells a split: a symbol is a mark, if there is one. -/
theorem ofWords?_isSome {cs : List Char} {words : List (List Char)} (h : words ∈ splits steps cs) :
    (ofWords? words).isSome = true := by
  have hwords := (mem_splits_iff.1 h).2
  rw [steps] at hwords
  obtain _ | ⟨-, _ | ⟨hsymbol, _ | ⟨-, _ | ⟨-, _ | _⟩⟩⟩⟩ := hwords
  rw [ofWords?, Option.isSome_map]
  rw [symbolStep, Step.language, Language.mem_add, Language.mem_one] at hsymbol
  rcases hsymbol with rfl | ⟨c, hc, rfl⟩
  · rfl
  · have hmark := Operator.ofMark?_isSome_iff.2 (contains_marks.1 hc)
    simpa [Operator.ofSymbol?] using hmark

theorem startsAt_pattern {cs : List Char} : pattern.StartsAt [] cs ↔ (wholly steps).StartsAt [] cs := by
  simp [StartsAt, pattern, wholly, steps, Regex.sequence, Spans]

/-- A body has a split exactly if the pattern matches it. -/
theorem splitComparison_isSome_iff {cs : List Char} :
    (splitComparison cs).isSome = true ↔ pattern.StartsAt [] cs := by
  rw [splitComparison_eq_ofWords?, startsAt_pattern, ← exists_split_iff, firstSplit?]
  cases h : splits steps cs with
  | nil => simp
  | cons words _ =>
    have hsome := ofWords?_isSome (h ▸ List.mem_cons_self : words ∈ splits steps cs)
    simp only [List.head?_cons, Option.bind_some, hsome, true_iff]
    exact ⟨words, List.mem_cons_self⟩

/-! ## Compiling -/

variable {fields : FieldSet} {text : String} {part value : List Char} {op : Operator}

theorem compile_of_split_eq_none (h : splitComparison (body text.toList) = none) :
    compile fields text = .error (.invalidCondition (String.ofList (body text.toList))) := by
  simp only [compile, h]

theorem compile_of_split_eq_some (h : splitComparison (body text.toList) = some (part, op, value)) :
    compile fields text = if String.ofList (trimBoth part) ∈ fields.names then
        make (String.ofList (trimBoth part)) op (String.ofList value)
      else .error (.unknownField (String.ofList (trimBoth part))) := by
  simp only [compile, h, FieldSet.contains_iff]

/-- A condition can be made of all parts but a value that is no pattern. -/
theorem make_cases (field : String) (op : Operator) (value : String) :
    (∃ c, make field op value = .ok c ∧ c.field = field ∧ c.operator = op ∧ c.value = value) ∨
      op = .pattern ∧ op.matcher? value = none ∧
        make field op value = .error (.invalidPattern value) := by
  cases h : make field op value with
  | ok c => exact .inl ⟨c, rfl, make_eq_ok h⟩
  | error e =>
    obtain rfl := make_eq_error h
    have hnone : op.matcher? value = none := by
      unfold make at h
      split at h
      · cases h
      · next hnone => exact hnone
    refine .inr ⟨?_, hnone, rfl⟩
    cases op with
    | pattern => rfl
    | _ => cases hnone

theorem compile_eq_invalidCondition_iff {near : String} :
    compile fields text = .error (.invalidCondition near) ↔
      near = String.ofList (body text.toList) ∧ splitComparison (body text.toList) = none := by
  cases h : splitComparison (body text.toList) with
  | none => simp [compile_of_split_eq_none h, eq_comm]
  | some split =>
    obtain ⟨part, op, value⟩ := split
    rw [compile_of_split_eq_some h]
    split
    · rcases make_cases (String.ofList (trimBoth part)) op (String.ofList value) with
        ⟨c, hc, -⟩ | ⟨-, -, he⟩
      · simp [hc]
      · simp [he]
    · simp

theorem compile_eq_unknownField_iff (h : splitComparison (body text.toList) = some (part, op, value))
    {field : String} : compile fields text = .error (.unknownField field) ↔
      field = String.ofList (trimBoth part) ∧ field ∉ fields.names := by
  rw [compile_of_split_eq_some h]
  split
  · next hknown =>
    rcases make_cases (String.ofList (trimBoth part)) op (String.ofList value) with
      ⟨c, hc, -⟩ | ⟨-, -, he⟩
    · simp +contextual [hc, hknown]
    · simp +contextual [he, hknown]
  · next hknown =>
    simp only [Except.error.injEq, QueryError.unknownField.injEq]
    constructor
    · rintro rfl
      exact ⟨rfl, hknown⟩
    · rintro ⟨rfl, -⟩
      rfl

/-! ## Main statements -/

/-- **How a condition text compiles.** All is told by the first `=` of the body. Without one, or with a
line feed in the part in front, the condition is invalid. Otherwise the trimmed part in front is the
field, which is unknown or else makes the condition with the operator and the value; only a value of the
operator `/` may be refused. The first comparison without a line feed in front is what the pattern
captures. -/
theorem compile_closedForm (fields : FieldSet) (text : String) :
    let b := body text.toList
    (∀ near, compile fields text = .error (.invalidCondition near) ↔ near = String.ofList b ∧
      ('=' ∉ b ∨ ∃ part op value, firstComparison? b = some (part, op, value) ∧ '\n' ∈ part)) ∧
    (∀ part op value, firstComparison? b = some (part, op, value) → '\n' ∉ part →
      (∀ field, compile fields text = .error (.unknownField field) ↔
        field = String.ofList (trimBoth part) ∧ field ∉ fields.names) ∧
      (String.ofList (trimBoth part) ∈ fields.names →
        (∃ c, compile fields text = .ok c ∧ c.field = String.ofList (trimBoth part) ∧
          c.operator = op ∧ c.value = String.ofList value) ∨
        op = .pattern ∧ op.matcher? (String.ofList value) = none ∧
          compile fields text = .error (.invalidPattern (String.ofList value)))) ∧
    (firstSplit? steps b).bind ofWords? = (firstComparison? b).filter fun split => '\n' ∉ split.1 := by
  intro b
  refine ⟨fun near => ?_, fun part op value hfirst hpart => ?_, ?_⟩
  · exact compile_eq_invalidCondition_iff.trans (and_congr_right' splitComparison_eq_none_iff)
  · have hsplit : splitComparison b = some (part, op, value) := by
      rw [splitComparison_eq_filter, hfirst, Option.filter_some, if_pos (by simpa using hpart)]
    refine ⟨fun field => compile_eq_unknownField_iff hsplit, fun hknown => ?_⟩
    rw [compile_of_split_eq_some hsplit, if_pos hknown]
    exact make_cases _ op _
  · rw [← splitComparison_eq_ofWords?, splitComparison_eq_filter]

/-- Marks within the field part and `=` within the value: only the character in front of the first `=`
is the operator. -/
theorem compile_closedForm_marks :
    firstComparison? (body "[\n a~! !==x=]".toList) =
        some ("a~! ".toList, .notEquals, "=x=".toList) ∧
      '\n' ∉ "a~! ".toList ∧ String.ofList (trimBoth "a~! ".toList) ∈ (FieldSet.ofList ["a~!"]).names ∧
      ∃ c, compile (FieldSet.ofList ["a~!"]) "[\n a~! !==x=]" = .ok c ∧
        c.field = String.ofList (trimBoth "a~! ".toList) ∧ c.operator = .notEquals ∧
        c.value = String.ofList "=x=".toList := by
  have hfirst : firstComparison? (body "[\n a~! !==x=]".toList) =
      some ("a~! ".toList, .notEquals, "=x=".toList) := by decide +kernel
  have hpart : '\n' ∉ "a~! ".toList := by decide +kernel
  have hknown : String.ofList (trimBoth "a~! ".toList) ∈ (FieldSet.ofList ["a~!"]).names := by
    decide +kernel
  obtain ⟨-, hsplit, -⟩ := compile_closedForm (FieldSet.ofList ["a~!"]) "[\n a~! !==x=]"
  refine ⟨hfirst, hpart, hknown, ?_⟩
  rcases (hsplit _ _ _ hfirst hpart).2 hknown with hok | ⟨hpattern, -⟩
  · exact hok
  · cases hpattern

/-! ## White space around the field -/

/-- The body alone decides what a text compiles to. -/
theorem compile_eq_of_body_eq {other : String} (h : body text.toList = body other.toList) :
    compile fields text = compile fields other := by
  simp only [compile, h]

/-- The text of a condition with white space around its field. -/
def spaced (before field behind symbol value : String) : String :=
  "[" ++ before ++ field ++ behind ++ symbol ++ "=" ++ value ++ "]"

theorem body_spaced (before field behind symbol value : String) :
    body (spaced before field behind symbol value).toList =
      trimLeft (before.toList ++ (field.toList ++ behind.toList ++
        (symbol.toList ++ '=' :: value.toList))) := by
  have h : (spaced before field behind symbol value).toList =
      '[' :: (before.toList ++ (field.toList ++ behind.toList ++
        (symbol.toList ++ '=' :: value.toList)) ++ [']']) := by
    simp [spaced, String.toList_append]
  rw [h, body_brackets]

variable {field : String} {behind cs : List Char}

/-- White space behind a field is trimmed off. -/
theorem Clean.trimBoth_append (h : Clean field) (hne : field ≠ "")
    (hbehind : ∀ c ∈ behind, isBlank c = true) : trimBoth (field.toList ++ behind) = field.toList := by
  have hleft : trimLeft field.toList = field.toList := by
    simpa using h.trimLeft_append_self hne []
  have htrimmed := h.trimmed
  rw [trimBoth, hleft] at htrimmed
  rw [trimBoth, h.trimLeft_append_self hne, trimRight_append hbehind, htrimmed]

/-- The field and the white space behind it stand in front of the first comparison. -/
theorem Clean.firstComparison?_append (h : Clean field) (hbehind : ∀ c ∈ behind, isBlank c = true)
    {op : Operator} {value : List Char} (hcs : firstComparison? cs = some ([], op, value)) :
    firstComparison? (field.toList ++ behind ++ cs) = some (field.toList ++ behind, op, value) := by
  have hequals : '=' ∉ field.toList ++ behind := by
    rw [List.mem_append, not_or]
    exact ⟨h.plain.equals_notMem, fun hmem => absurd (hbehind _ hmem) (by decide)⟩
  have hlast : ∀ c ∈ (field.toList ++ behind).getLast?, c ∉ Operator.marks := by
    intro c hc
    rw [Option.mem_def, List.getLast?_append, Option.or_eq_some_iff] at hc
    rcases hc with hc | ⟨-, hc⟩
    · intro hmark
      have hblank := hbehind c (List.mem_of_getLast? hc)
      rw [isBlank_of_mem_marks hmark] at hblank
      cases hblank
    · exact h.plain.last_notMem_marks c hc
  rw [Condition.firstComparison?_append hequals hlast, hcs]
  simp

theorem firstComparison?_symbol (op : Option Operator) (value : List Char) :
    ∃ o v, firstComparison? ((op.elim "" Operator.symbol).toList ++ '=' :: value) =
      some ([], o, v) := by
  have hmark : (op.elim "" Operator.symbol).toList = [] ∨
      ∃ m ∈ Operator.marks, (op.elim "" Operator.symbol).toList = [m] := by
    cases op with
    | none => exact .inl rfl
    | some op => exact .inr ⟨op.mark, mark_mem_marks op, by simp [Operator.symbol]⟩
  obtain ⟨o, v, hsplit⟩ := splitComparison_comparison hmark value
  rw [splitComparison_eq_filter, Option.filter_eq_some_iff] at hsplit
  exact ⟨o, v, hsplit.1⟩

section Spaced

variable {before behind symbol value : String} {o : Operator} {v : List Char}

theorem Clean.body_spaced (h : Clean field) (hne : field ≠ "")
    (hbefore : ∀ c ∈ before.toList, isBlank c = true) (behind symbol value : String) :
    body (spaced before field behind symbol value).toList =
      field.toList ++ behind.toList ++ (symbol.toList ++ '=' :: value.toList) := by
  rw [Condition.body_spaced, Text.trimLeft_append hbefore, List.append_assoc, h.trimLeft_append_self hne]

/-- The white space behind the field is part of what the walk splits off, so it must hold no line
feed. -/
theorem Clean.splitComparison_spaced (h : Clean field) (hne : field ≠ "")
    (hbefore : ∀ c ∈ before.toList, isBlank c = true)
    (hbehind : ∀ c ∈ behind.toList, isBlank c = true)
    (hfirst : firstComparison? (symbol.toList ++ '=' :: value.toList) = some ([], o, v)) :
    splitComparison (body (spaced before field behind symbol value).toList) =
      if '\n' ∈ behind.toList then none else some (field.toList ++ behind.toList, o, v) := by
  rw [h.body_spaced hne hbefore, splitComparison_eq_filter, h.firstComparison?_append hbehind hfirst,
    Option.filter_some]
  simp [h.plain.lineFeed_notMem]

end Spaced

/-- White space that holds a line feed makes a condition invalid behind a field that is not empty. All
other white space around a field changes nothing. -/
theorem compile_spaced_field (fields : FieldSet) (hclean : Clean field) {before behind : String}
    (hbefore : ∀ c ∈ before.toList, isBlank c = true)
    (hbehind : ∀ c ∈ behind.toList, isBlank c = true) (op : Option Operator) (value : String) :
    compile fields (spaced before field behind (op.elim "" Operator.symbol) value) =
      if field ≠ "" ∧ '\n' ∈ behind.toList then
        .error (.invalidCondition (field ++ behind ++ op.elim "" Operator.symbol ++ "=" ++ value))
      else compile fields (spaced "" field "" (op.elim "" Operator.symbol) value) := by
  obtain ⟨o, v, hfirst⟩ := firstComparison?_symbol op value.toList
  generalize op.elim "" Operator.symbol = symbol at hfirst ⊢
  by_cases hne : field = ""
  · -- what is behind no field is in front of the comparison
    subst hne
    rw [if_neg (by simp)]
    apply compile_eq_of_body_eq
    rw [body_spaced, body_spaced, trimLeft_append hbefore]
    simp [trimLeft_append hbehind]
  have hsplit := hclean.splitComparison_spaced hne hbefore hbehind hfirst
  by_cases hfeed : '\n' ∈ behind.toList
  · have hnear : String.ofList
        (field.toList ++ behind.toList ++ (symbol.toList ++ '=' :: value.toList)) =
          field ++ behind ++ symbol ++ "=" ++ value := by
      apply String.toList_injective
      simp [String.toList_append]
    rw [if_pos hfeed] at hsplit
    rw [if_pos ⟨hne, hfeed⟩, compile_of_split_eq_none hsplit, hclean.body_spaced hne hbefore, hnear]
  · have hnone : ∀ c ∈ "".toList, isBlank c = true := List.forall_mem_nil _
    have hbare := hclean.splitComparison_spaced hne hnone hnone hfirst
    rw [if_neg hfeed] at hsplit
    rw [if_neg (by simp)] at hbare
    rw [if_neg fun h => hfeed h.2, compile_of_split_eq_some hsplit, compile_of_split_eq_some hbare,
      hclean.trimBoth_append hne hbehind, hclean.trimBoth_append hne hnone]

/-- Line feed and blank in front of the field, and a tab behind it. -/
theorem compile_spaced_field_tab :
    Clean "a" ∧ (∀ c ∈ "\n ".toList, isBlank c = true) ∧ (∀ c ∈ "\t".toList, isBlank c = true) ∧
      compile (FieldSet.ofList ["a"]) (spaced "\n " "a" "\t" "!" "1") =
        compile (FieldSet.ofList ["a"]) (spaced "" "a" "" "!" "1") := by
  have hclean : Clean "a" := by decide
  have hbefore : ∀ c ∈ "\n ".toList, isBlank c = true := List.all_eq_true.1 (by decide)
  have hbehind : ∀ c ∈ "\t".toList, isBlank c = true := List.all_eq_true.1 (by decide)
  have h := compile_spaced_field (FieldSet.ofList ["a"]) hclean hbefore hbehind (some .notEquals) "1"
  rw [if_neg (by decide)] at h
  exact ⟨hclean, hbefore, hbehind, h⟩

/-- A line feed is white space, but behind a field it is not ignored. -/
theorem compile_lineFeed_behind_field :
    Clean "a" ∧ "a" ∈ (FieldSet.ofList ["a"]).names ∧ (∀ c ∈ "\n".toList, isBlank c = true) ∧
      compile (FieldSet.ofList ["a"]) (spaced "" "a" "\n" "" "1") =
        .error (.invalidCondition "a\n=1") ∧
      (compile (FieldSet.ofList ["a"]) (spaced "" "a" "" "" "1")).toOption.map (·.render) =
        some "[a==1]" := by
  refine ⟨by decide, by decide +kernel, List.all_eq_true.1 (by decide), ?_, ?_⟩
  · rfl
  · decide +kernel

end Condition

end SlotQuery
