import SlotQuery.Proofs.Query.Split
import SlotQuery.Query.Lexer

/-!
# Tokens of a text

`Lexes` relates a text to its tokens, one token or one white space character at a time, and
`tokenize_eq_ok_iff` says that it is the graph of `tokenize`. A condition token spans the text up to
the first `]` behind which the rule of `Boundary.Continues` holds.
-/

namespace SlotQuery

open Text Boundary

namespace Lexer

variable {names : List (List Char)} {c : Char} {cs rest : List Char} {t : Token} {ts : List Token}

/-- The text reads as the tokens. -/
inductive Lexes (names : List (List Char)) : List Char → List Token → Prop where
  | done : Lexes names [] []
  | blank {c : Char} {cs : List Char} {ts : List Token} : isBlank c = true → Lexes names cs ts →
      Lexes names (c :: cs) ts
  | token {cs rest : List Char} {t : Token} {ts : List Token} : readToken names cs = .ok (t, rest) →
      Lexes names rest ts → Lexes names cs (t :: ts)

/-! ## The relation and the function -/

/-- A token starts with something other than white space. -/
theorem readToken_head (h : readToken names (c :: cs) = .ok (t, rest)) : isBlank c = false := by
  unfold readToken at h
  split at h
  case h_7 => cases h
  all_goals
    next heq =>
      obtain ⟨rfl, -⟩ := List.cons.inj heq
      decide

/-- White space in front of the tokens does not count. -/
theorem Lexes.of_blank (h : Lexes names (c :: cs) ts) (hc : isBlank c = true) :
    Lexes names cs ts := by
  cases h with
  | blank _ h => exact h
  | token hread _ =>
    rw [readToken_head hread] at hc
    cases hc

/-- What is read first is the first token. -/
theorem Lexes.of_token (h : Lexes names cs ts) (hread : readToken names cs = .ok (t, rest)) :
    ∃ us, ts = t :: us ∧ Lexes names rest us := by
  cases h with
  | done => cases hread
  | blank hc _ =>
    rw [readToken_head hread] at hc
    cases hc
  | token hread' h =>
    obtain ⟨rfl, rfl⟩ := Prod.mk.inj (Except.ok.inj (hread'.symm.trans hread))
    exact ⟨_, rfl, h⟩

/-- The lexer finds nothing but tokens of the text. -/
theorem lexes_of_lexemesFrom {pos : Nat} {ls : List Lexeme}
    (h : lexemesFrom names pos cs = .ok ls) : Lexes names cs (ls.map Lexeme.token) := by
  fun_induction lexemesFrom names pos cs generalizing ls with
  | case1 =>
    cases h
    exact .done
  | case2 pos c cs hc ih => exact .blank hc (ih h)
  | case3 => cases h
  | case4 => cases h
  | case5 pos c cs _ t rest hread ls' hls ih =>
    cases h
    exact .token hread (ih hls)

theorem lexemesFrom_of_error {e : QueryError} (hc : isBlank c = false)
    (hread : readToken names (c :: cs) = .error e) (pos : Nat) :
    lexemesFrom names pos (c :: cs) = .error e := by
  rw [lexemesFrom, if_neg (by simp [hc])]
  split
  · next herr =>
    obtain rfl := Except.error.inj (herr.symm.trans hread)
    rfl
  · next hok => cases hok.symm.trans hread

theorem lexemesFrom_of_token (hread : readToken names cs = .ok (t, rest)) (pos : Nat) :
    lexemesFrom names pos cs =
      (lexemesFrom names (pos + t.display.toList.length) rest).map (⟨pos, t⟩ :: ·) := by
  cases cs with
  | nil => cases hread
  | cons c cs =>
    rw [lexemesFrom, if_neg (by simp [readToken_head hread])]
    split
    · next herr => cases herr.symm.trans hread
    · next hread' =>
      obtain ⟨rfl, rfl⟩ := Prod.mk.inj (Except.ok.inj (hread'.symm.trans hread))
      split <;> next hls => rw [hls]; rfl

/-- The lexer finds all tokens of a text, wherever it starts to count. -/
theorem lexemesFrom_of_lexes (h : Lexes names cs ts) (pos : Nat) :
    ∃ ls, lexemesFrom names pos cs = .ok ls ∧ ls.map Lexeme.token = ts := by
  induction h generalizing pos with
  | done => exact ⟨[], by rw [lexemesFrom], rfl⟩
  | @blank c cs ts hc _ ih =>
    obtain ⟨ls, hls, hts⟩ := ih (pos + 1)
    exact ⟨ls, by rw [lexemesFrom, if_pos hc, hls], hts⟩
  | @token cs rest t ts hread _ ih =>
    obtain ⟨ls, hls, rfl⟩ := ih (pos + t.display.toList.length)
    exact ⟨⟨pos, t⟩ :: ls, by rw [lexemesFrom_of_token hread, hls]; rfl, rfl⟩

/-! ## Condition tokens -/

/-- A condition token spans the text up to the first closing bracket. -/
theorem readToken_eq_condition {b : String} :
    readToken names cs = .ok (.condition b, rest) ↔
      ∃ value, b.toList = '[' :: (value ++ [']']) ∧ cs = '[' :: (value ++ ']' :: rest) ∧
        cut? names (value ++ ']' :: rest) = some (value, rest) := by
  constructor
  · intro h
    have heq := readToken_eq h
    unfold readToken at h
    split at h
    case h_1 cs' =>
      split at h
      · next value rest' hcut =>
        cases h
        obtain rfl := cut?_eq hcut
        exact ⟨value, by simp, rfl, hcut⟩
      · cases h
    all_goals cases h
  · rintro ⟨value, hb, rfl, hcut⟩
    have hb' : b = String.ofList ('[' :: value ++ [']']) := by
      rw [← String.ofList_toList (s := b), hb]
      rfl
    simp only [readToken, hcut, hb']

theorem continues_of_readToken {b : String} (h : readToken names cs = .ok (.condition b, rest)) :
    Continues names rest := by
  obtain ⟨value, -, -, hcut⟩ := readToken_eq_condition.1 h
  exact (cut?_eq_some_iff.1 hcut).2.1

/-- What follows a condition token is the text behind a closing bracket. -/
theorem Lexes.after_condition {pre post : List Token} {a : String} (h : Lexes names cs ts)
    (hts : ts = pre ++ .condition a :: post) :
    ∃ rest, Continues names rest ∧ Lexes names rest post := by
  induction h generalizing pre with
  | done => simp at hts
  | blank _ _ ih => exact ih hts
  | token hread h ih =>
    cases pre with
    | nil =>
      obtain ⟨rfl, rfl⟩ := List.cons.inj hts
      exact ⟨_, continues_of_readToken hread, h⟩
    | cons t pre => exact ih (List.cons.inj hts).2

end Lexer

/-- The lexer and the relation agree about every text. -/
theorem tokenize_eq_ok_iff {fields : FieldSet} {query : String} {ts : List Token} :
    tokenize fields query = .ok ts ↔ Lexer.Lexes fields.starts query.toList ts := by
  rw [tokenize, lexemes]
  constructor
  · intro h
    cases hls : Lexer.lexemesFrom fields.starts 0 query.toList with
    | error e =>
      rw [hls] at h
      cases h
    | ok ls =>
      rw [hls] at h
      cases h
      exact Lexer.lexes_of_lexemesFrom hls
  · intro h
    obtain ⟨ls, hls, rfl⟩ := Lexer.lexemesFrom_of_lexes h 0
    rw [hls]
    rfl

end SlotQuery
