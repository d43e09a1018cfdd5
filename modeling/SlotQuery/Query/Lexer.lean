import SlotQuery.Query.Boundary
import SlotQuery.Query.Error
import SlotQuery.Query.Token

/-!
# Reading tokens

Keywords and parentheses are read where they stand, by their letters alone; a bracket opens a
condition, which ends where `Boundary` says. White space between tokens is skipped. `lexemes` keeps
the place of each token, `tokenize` the tokens only.
-/

namespace SlotQuery

open Text

/-- A token and the place of its first character in the query. -/
structure Lexeme where
  start : Nat
  token : Token
deriving DecidableEq, Repr

namespace Lexer

/-- The token at the start of the text and the text behind it. -/
def readToken (names : List (List Char)) (text : List Char) :
    Except QueryError (Token × List Char) :=
  match text with
  | '[' :: cs =>
    match Boundary.cut? names cs with
    | some (value, rest) => .ok (.condition (String.ofList ('[' :: value ++ [']'])), rest)
    | none => .error (.unterminatedCondition (String.ofList (trimRight text)))
  | 'A' :: 'N' :: 'D' :: rest => .ok (.and, rest)
  | 'O' :: 'R' :: rest => .ok (.or, rest)
  | 'N' :: 'O' :: 'T' :: rest => .ok (.not, rest)
  | '(' :: rest => .ok (.groupOpen, rest)
  | ')' :: rest => .ok (.groupClose, rest)
  | _ => .error (.unrecognizedToken (String.ofList (trimRight text)))

/-- A token takes up exactly the text that it is shown as. -/
theorem readToken_eq {names : List (List Char)} {text rest : List Char} {t : Token}
    (h : readToken names text = .ok (t, rest)) : text = t.display.toList ++ rest := by
  unfold readToken at h
  split at h
  · split at h
    · next hcut =>
      cases h
      simp [Token.display, Boundary.cut?_eq hcut]
    · cases h
  all_goals cases h
  all_goals rfl

theorem readToken_display_ne {names : List (List Char)} {text rest : List Char} {t : Token}
    (h : readToken names text = .ok (t, rest)) : t.display.toList ≠ [] := by
  unfold readToken at h
  split at h
  · split at h
    · cases h
      simp [Token.display]
    · cases h
  all_goals cases h
  all_goals decide

theorem readToken_length_lt {names : List (List Char)} {text rest : List Char} {t : Token}
    (h : readToken names text = .ok (t, rest)) : rest.length < text.length := by
  have hlen : 0 < t.display.toList.length := List.length_pos_iff.2 (readToken_display_ne h)
  rw [readToken_eq h, List.length_append]
  omega

/-- The lexemes of the text that starts at the place `pos` of a query. -/
def lexemesFrom (names : List (List Char)) (pos : Nat) (text : List Char) :
    Except QueryError (List Lexeme) :=
  match text with
  | [] => .ok []
  | c :: cs =>
    if isBlank c then lexemesFrom names (pos + 1) cs
    else
      match _ : readToken names (c :: cs) with
      | .error e => .error e
      | .ok (t, rest) =>
        match lexemesFrom names (pos + t.display.toList.length) rest with
        | .error e => .error e
        | .ok ls => .ok (⟨pos, t⟩ :: ls)
termination_by text.length
decreasing_by
  · simp
  · exact readToken_length_lt ‹_›

end Lexer

/-- The tokens of the query with their places. -/
def lexemes (fields : FieldSet) (query : String) : Except QueryError (List Lexeme) :=
  Lexer.lexemesFrom fields.starts 0 query.toList

/-- The tokens of the query. -/
def tokenize (fields : FieldSet) (query : String) : Except QueryError (List Token) :=
  (lexemes fields query).map (·.map Lexeme.token)

end SlotQuery
