import SlotQuery.Proofs.Query.Comparison
import SlotQuery.Proofs.Text.CaseChanges

/-!
# Words of a text

The words of a text are what white space leaves of it. They are those of its parts on both sides of any
white space (`words_append_blank`), from which everything else about them follows. The comparison `~` with a
value that is itself a word asks whether one of the words is the value, up to case (`means_word_iff`).
-/

namespace SlotQuery

namespace Text

variable {c : Char} {cs w x y : List Char}

/-- The runs of characters between white space. -/
def words (cs : List Char) : List (List Char) := (cs.splitOnP isBlank).filter (· ≠ [])

/-- White space ends a word. -/
theorem words_append_blank (hc : isBlank c = true) (x y : List Char) :
    words (x ++ c :: y) = words x ++ words y := by
  rw [words, List.splitOnP_append_cons x y hc, List.filter_append]
  rfl

/-- A text without white space is one word. -/
theorem words_of_unbroken (hne : cs ≠ []) (h : ∀ c ∈ cs, isBlank c = false) : words cs = [cs] := by
  rw [words, List.splitOnP_eq_singleton h]
  simp [hne]

/-- The words of texts with spaces between them are those of each text in turn. -/
theorem words_intercalate (css : List (List Char)) :
    words ([' '].intercalate css) = css.flatMap words := by
  induction css with
  | nil => rfl
  | cons cs css ih =>
    cases css with
    | nil => simp
    | cons cs' css =>
      have hspace : isBlank ' ' = true := rfl
      rw [List.intercalate_cons_cons, List.append_assoc, List.singleton_append,
        words_append_blank hspace, ih]
      rfl

/-- A part of a text that is bounded by white space or the ends of the text. -/
structure IsWordOf (w cs : List Char) : Prop where
  ne_nil : w ≠ []
  unbroken : ∀ c ∈ w, isBlank c = false
  bounded : ∃ x y, cs = x ++ w ++ y ∧ (∀ c ∈ x.getLast?, isBlank c = true) ∧
    ∀ c ∈ y.head?, isBlank c = true

/-- What follows the text leaves its words alone if it starts with white space. -/
theorem mem_words_append_left (hy : ∀ c ∈ y.head?, isBlank c = true) (h : w ∈ words x) :
    w ∈ words (x ++ y) := by
  cases y with
  | nil => rwa [List.append_nil]
  | cons c y =>
    rw [words_append_blank (hy c rfl)]
    exact List.mem_append_left _ h

theorem mem_words_append_right (hx : ∀ c ∈ x.getLast?, isBlank c = true) (h : w ∈ words y) :
    w ∈ words (x ++ y) := by
  rcases List.eq_nil_or_concat x with rfl | ⟨x, c, rfl⟩
  · exact h
  · rw [List.concat_eq_append] at hx ⊢
    rw [List.append_assoc, List.singleton_append, words_append_blank (hx c (by simp))]
    exact List.mem_append_right _ h

/-- A run of characters between white space is a word. -/
theorem IsWordOf.mem_words (h : IsWordOf w cs) : w ∈ words cs := by
  obtain ⟨x, y, rfl, hx, hy⟩ := h.bounded
  have hw : w ∈ words w := by
    rw [words_of_unbroken h.ne_nil h.unbroken]
    exact List.mem_singleton_self w
  exact mem_words_append_left hy (mem_words_append_right hx hw)

theorem IsWordOf.append_left (h : IsWordOf w x) (hc : isBlank c = true) : IsWordOf w (x ++ c :: y) := by
  obtain ⟨hne, hunbroken, u, v, rfl, hu, hv⟩ := h
  refine ⟨hne, hunbroken, u, v ++ c :: y, by simp, hu, ?_⟩
  cases v with
  | nil => simpa using hc
  | cons d v => simpa using hv

theorem IsWordOf.append_right (h : IsWordOf w y) (hc : isBlank c = true) : IsWordOf w (x ++ c :: y) := by
  obtain ⟨hne, hunbroken, u, v, rfl, hu, hv⟩ := h
  refine ⟨hne, hunbroken, x ++ c :: u, v, by simp, ?_, hv⟩
  rcases List.eq_nil_or_concat u with rfl | ⟨u, d, rfl⟩
  · simpa using hc
  · simpa [List.getLast?_cons] using hu

/-- A word stands between white space, or at an end of the text. -/
theorem isWordOf_of_mem_words (h : w ∈ words cs) : IsWordOf w cs := by
  induction hlength : cs.length using Nat.strong_induction_on generalizing cs with
  | _ n ih =>
    subst hlength
    by_cases hblank : ∃ c ∈ cs, isBlank c = true
    · obtain ⟨c, hc, hblank⟩ := hblank
      obtain ⟨x, y, rfl⟩ := List.append_of_mem hc
      rw [words_append_blank hblank, List.mem_append] at h
      rcases h with h | h
      · exact (ih x.length (by simp) h rfl).append_left hblank
      · exact (ih y.length (by simp; omega) h rfl).append_right hblank
    · have hunbroken : ∀ c ∈ cs, isBlank c = false := by
        intro c hc
        by_contra hnot
        exact hblank ⟨c, hc, Bool.eq_true_of_not_eq_false hnot⟩
      have hne : cs ≠ [] := by
        rintro rfl
        cases h
      rw [words_of_unbroken hne hunbroken] at h
      obtain rfl := List.mem_singleton.1 h
      exact ⟨hne, hunbroken, [], [], by simp, by simp, by simp⟩

theorem mem_words_iff : w ∈ words cs ↔ IsWordOf w cs :=
  ⟨isWordOf_of_mem_words, IsWordOf.mem_words⟩

end Text

open Text

/-! ## The comparison with a word -/

theorem folded_eq_nil_iff {cs : List Char} : folded cs = [] ↔ cs = [] := List.map_eq_nil_iff

/-- Folding keeps white space apart from all else. -/
theorem unbroken_of_folded_eq {v w : List Char} (h : folded v = folded w)
    (hw : ∀ c ∈ w, isBlank c = false) : ∀ c ∈ v, isBlank c = false := by
  intro c hc
  have hmem : fold c ∈ folded w := h ▸ List.mem_map_of_mem hc
  obtain ⟨d, hd, hfold⟩ := List.mem_map.1 hmem
  rw [← isBlank_fold, ← hfold, isBlank_fold, hw d hd]

/-- A word is looked for among the words of the content. -/
theorem Operator.means_word_iff {value content : List Char} (hne : value ≠ [])
    (hvalue : ∀ c ∈ value, isBlank c = false) :
    Operator.word.Means value content ↔ ∃ w ∈ words content, folded w = folded value := by
  constructor
  · rintro ⟨x, w, y, hcontent, hfolded, hx, hy⟩
    have hw : w ≠ [] := by
      rintro rfl
      exact hne (folded_eq_nil_iff.1 hfolded.symm)
    refine ⟨w, mem_words_iff.2 ⟨hw, unbroken_of_folded_eq hfolded hvalue, ?_⟩, hfolded⟩
    exact ⟨x, y, hcontent, hx, hy⟩
  · rintro ⟨w, hw, hfolded⟩
    obtain ⟨-, -, x, y, hcontent, hx, hy⟩ := mem_words_iff.1 hw
    exact ⟨x, w, y, hcontent, hfolded, hx, hy⟩

end SlotQuery
