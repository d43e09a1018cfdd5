import SlotQuery.Proofs.Query.Continuation
import SlotQuery.Query.Condition

/-!
# Splitting a condition

A field without `=` and line feeds that ends in no mark is what `Condition.compile` finds in front of
the first comparison, and a condition that compiles has such a field. The canonical text of a compiled
condition compiles to the condition (`compile_render`).
-/

namespace SlotQuery

open Text

namespace Condition

/-! ## The first comparison -/

/-- Nothing in front of a comparison can be read as one. -/
structure Plain (field : List Char) : Prop where
  equals_notMem : '=' ∉ field
  lineFeed_notMem : '\n' ∉ field
  last_notMem_marks : ∀ c ∈ field.getLast?, c ∉ Operator.marks

/-- Whether a field is plain shows at its characters and its end. -/
theorem plain_iff {field : List Char} : Plain field ↔
    '=' ∉ field ∧ '\n' ∉ field ∧ field.getLast?.all (· ∉ Operator.marks) = true := by
  simp only [Option.all_eq_true, decide_eq_true_eq]
  exact ⟨fun h => ⟨h.equals_notMem, h.lineFeed_notMem, h.last_notMem_marks⟩,
    fun ⟨hequals, hfeed, hlast⟩ => ⟨hequals, hfeed, hlast⟩⟩

instance (field : List Char) : Decidable (Plain field) := decidable_of_iff _ plain_iff.symm

theorem Plain.tail {c : Char} {field : List Char} (h : Plain (c :: field)) : Plain field where
  equals_notMem hm := h.equals_notMem (List.mem_cons_of_mem c hm)
  lineFeed_notMem hm := h.lineFeed_notMem (List.mem_cons_of_mem c hm)
  last_notMem_marks d hd := by
    refine h.last_notMem_marks d ?_
    rw [Option.mem_def] at hd
    simp [List.getLast?_cons, hd]

/-- A plain field is passed over. -/
theorem splitComparison_append {field : List Char} (h : Plain field) (cs : List Char) :
    splitComparison (field ++ cs) =
      (splitComparison cs).map fun (f, op, value) => (field ++ f, op, value) := by
  induction field with
  | nil => exact Option.map_id'.symm
  | cons c field ih =>
    have hc : c ≠ '=' := fun hc => h.equals_notMem (hc ▸ List.mem_cons_self)
    have hn : c ≠ '\n' := fun hc => h.lineFeed_notMem (hc ▸ List.mem_cons_self)
    rw [List.cons_append, splitComparison, if_neg hc, if_neg hn, ih h.tail, Option.map_map]
    · rfl
    · -- a comparison here would end the field with a mark, or put `=` into it
      intro op value hop heq
      cases field with
      | nil =>
        refine h.last_notMem_marks c rfl (Operator.ofMark?_isSome_iff.1 ?_)
        rw [hop]
        rfl
      | cons d field =>
        obtain ⟨rfl, -⟩ := List.cons.inj heq
        exact h.tail.equals_notMem List.mem_cons_self

/-- An operator at the front leaves nothing for the field. -/
theorem splitComparison_mark (op : Operator) (value : List Char) :
    splitComparison (op.mark :: '=' :: value) = some ([], op, value) := by
  rw [splitComparison]
  exact Operator.ofMark?_mark op

/-- A comparison, with or without a mark, is one with an operator and a value. -/
theorem splitComparison_comparison {mark : List Char}
    (h : mark = [] ∨ ∃ m ∈ Operator.marks, mark = [m]) (cs : List Char) :
    ∃ op value, splitComparison (mark ++ '=' :: cs) = some ([], op, value) := by
  rcases h with rfl | ⟨m, hm, rfl⟩
  · match cs with
    | [] => exact ⟨.equals, [], rfl⟩
    | c :: cs =>
      by_cases hc : c = '='
      · subst hc
        exact ⟨.equals, cs, rfl⟩
      · refine ⟨.equals, c :: cs, ?_⟩
        simp [splitComparison, hc, Operator.ofMark?]
  · obtain ⟨op, hop⟩ := Option.isSome_iff_exists.1 (Operator.ofMark?_isSome_iff.2 hm)
    refine ⟨op, cs, ?_⟩
    rw [← Operator.mark_of_ofMark? hop]
    exact splitComparison_mark op cs

/-- What is split off in front of the value is the field and its comparison. -/
theorem splitComparison_eq_some {cs field value : List Char} {op : Operator}
    (h : splitComparison cs = some (field, op, value)) :
    '=' ∉ field ∧ '\n' ∉ field ∧
      (cs = field ++ op.mark :: '=' :: value ∨ op = .equals ∧ cs = field ++ '=' :: value) := by
  fun_induction splitComparison cs generalizing field with
  | case1 => cases h
  | case2 c op' value' hop =>
    cases h
    simp [Operator.mark_of_ofMark? hop]
  | case3 cs _ =>
    cases h
    simp
  | case4 => cases h
  | case5 c cs hc hn _ ih =>
    simp only [Option.map_eq_some_iff, Prod.mk.injEq, Prod.exists] at h
    obtain ⟨f, _, _, hsplit, rfl, rfl, rfl⟩ := h
    obtain ⟨he, hl, hcs⟩ := ih hsplit
    refine ⟨by simp [Ne.symm hc, he], by simp [Ne.symm hn, hl], ?_⟩
    rcases hcs with rfl | ⟨rfl, rfl⟩
    · exact .inl rfl
    · exact .inr ⟨rfl, rfl⟩

/-! ## Compiling -/

/-- A condition keeps what it is made of. -/
theorem make_eq_ok {field value : String} {op : Operator} {c : Condition}
    (h : make field op value = .ok c) : c.field = field ∧ c.operator = op ∧ c.value = value := by
  unfold make at h
  split at h <;> cases h
  exact ⟨rfl, rfl, rfl⟩

/-- Only a value that is no pattern keeps a condition from being made. -/
theorem make_eq_error {field value : String} {op : Operator} {e : QueryError}
    (h : make field op value = .error e) : e = .invalidPattern value := by
  unfold make at h
  split at h <;> cases h
  rfl

theorem make_self (c : Condition) : make c.field c.operator c.value = .ok c := by
  cases h : make c.field c.operator c.value with
  | ok d => rw [ext_iff.2 (make_eq_ok h)]
  | error e =>
    unfold make at h
    split at h
    · cases h
    · next hnone => exact absurd (hnone.symm.trans c.matcher_eq) (by simp)

/-- Between the brackets stands the body, white space in front apart. -/
theorem body_brackets (value : List Char) : body ('[' :: (value ++ [']'])) = trimLeft value := by
  simp [body]

/-- Between brackets the field is what precedes the first comparison, trimmed. -/
theorem compile_brackets {fields : FieldSet} {text field : String} {value f v : List Char}
    {op : Operator} (htext : text.toList = '[' :: (value ++ [']']))
    (hsplit : splitComparison (trimLeft value) = some (f, op, v))
    (hfield : trimBoth f = field.toList) (hknown : field ∈ fields.names) :
    compile fields text = make field op (String.ofList v) := by
  have hf : String.ofList (trimBoth f) = field := by rw [hfield, String.ofList_toList]
  simp only [compile, htext, body_brackets, hsplit, hf, FieldSet.contains_iff.2 hknown, if_true]

/-- The text of a condition that compiles splits into its field, operator and value. -/
theorem compile_eq_ok {fields : FieldSet} {text : String} {c : Condition}
    (h : compile fields text = .ok c) :
    c.field ∈ fields.names ∧ ∃ f, c.field.toList = trimBoth f ∧
      splitComparison (body text.toList) = some (f, c.operator, c.value.toList) := by
  simp only [compile] at h
  split at h
  · cases h
  · next f op value hsplit =>
    split at h
    · next hknown =>
      obtain ⟨hfield, rfl, hvalue⟩ := make_eq_ok h
      refine ⟨hfield ▸ FieldSet.contains_iff.1 hknown, f, ?_, ?_⟩
      · rw [hfield, String.toList_ofList]
      · rw [hvalue, String.toList_ofList, hsplit]
    · cases h

/-! ## Canonical texts -/

theorem render_toList (c : Condition) :
    c.render.toList =
      '[' :: (c.field.toList ++ c.operator.mark :: '=' :: c.value.toList ++ [']']) := by
  simp [render, Operator.symbol, String.toList_append]

/-- A field that is found again in the canonical text of its condition. -/
structure Clean (field : String) : Prop where
  plain : Plain field.toList
  trimmed : trimBoth field.toList = field.toList

instance (field : String) : Decidable (Clean field) :=
  decidable_of_iff (Plain field.toList ∧ trimBoth field.toList = field.toList)
    ⟨fun h => ⟨h.1, h.2⟩, fun h => ⟨h.plain, h.trimmed⟩⟩

theorem Clean.trimLeft_append_self {field : String} (h : Clean field) (hne : field ≠ "")
    (cs : List Char) : trimLeft (field.toList ++ cs) = field.toList ++ cs := by
  refine trimLeft_eq_self fun c hc => ?_
  cases hf : field.toList with
  | nil => exact absurd (String.toList_eq_nil_iff.1 hf) hne
  | cons d ds =>
    rw [hf] at hc
    refine @isBlank_head_trimBoth field.toList c ?_
    rw [h.trimmed, hf]
    exact hc

theorem Clean.trimLeft_append {field : String} (h : Clean field) {c : Char} (hc : isBlank c = false)
    (cs : List Char) : trimLeft (field.toList ++ c :: cs) = field.toList ++ c :: cs := by
  by_cases hne : field = ""
  · subst hne
    refine trimLeft_eq_self fun d hd => ?_
    cases hd
    exact hc
  · exact h.trimLeft_append_self hne _

theorem isBlank_of_mem_marks {c : Char} (h : c ∈ Operator.marks) : isBlank c = false := by
  simp only [Operator.marks, List.mem_cons, List.not_mem_nil, or_false] at h
  rcases h with rfl | rfl | rfl | rfl | rfl | rfl | rfl <;> decide

theorem mark_mem_marks (op : Operator) : op.mark ∈ Operator.marks :=
  Operator.ofMark?_isSome_iff.1 (by rw [Operator.ofMark?_mark]; rfl)

/-- The canonical text of a condition compiles to the condition. -/
theorem compile_render {fields : FieldSet} {c : Condition} (hclean : Clean c.field)
    (hknown : c.field ∈ fields.names) : compile fields c.render = .ok c := by
  have hsplit : splitComparison
      (trimLeft (c.field.toList ++ c.operator.mark :: '=' :: c.value.toList)) =
        some (c.field.toList, c.operator, c.value.toList) := by
    rw [hclean.trimLeft_append (isBlank_of_mem_marks (mark_mem_marks _)),
      splitComparison_append hclean.plain, splitComparison_mark]
    simp
  rw [compile_brackets (c.render_toList) hsplit hclean.trimmed hknown, String.ofList_toList]
  exact make_self c

end Condition

end SlotQuery
