import SlotQuery.Text.Digit
import SlotQuery.Toml.Basic

/-!
# Quoted texts of TOML

A text stands between two quotation marks on one line, or between two triples of them on several.
Double quotation marks allow escapes, single ones take every character as it is.
-/

namespace SlotQuery.Toml

open Text

/-- The character whose code point the next `n` hexadecimal digits are. -/
def codePoint? (n : Nat) (cs : List Char) : Option (Char × List Char) :=
  match ofDigits? 16 (cs.take n) with
  | none => none
  | some code =>
    if n ≤ cs.length ∧ code.isValidChar then some (Char.ofNat code, cs.drop n) else none

/-- The character that an escape stands for, from the character behind its backslash on. -/
def escape? : List Char → Option (Char × List Char)
  | 'b' :: cs => some ('\x08', cs)
  | 't' :: cs => some ('\t', cs)
  | 'n' :: cs => some ('\n', cs)
  | 'f' :: cs => some ('\x0c', cs)
  | 'r' :: cs => some ('\r', cs)
  | '"' :: cs => some ('"', cs)
  | '\\' :: cs => some ('\\', cs)
  | 'u' :: cs => codePoint? 4 cs
  | 'U' :: cs => codePoint? 8 cs
  | _ => none

theorem codePoint?_length {n : Nat} {cs rest : List Char} {c : Char}
    (h : codePoint? n cs = some (c, rest)) : rest.length ≤ cs.length := by
  unfold codePoint? at h
  split at h
  · cases h
  · split at h
    · cases h
      simp
    · cases h

theorem escape?_length {cs rest : List Char} {c : Char} (h : escape? cs = some (c, rest)) :
    rest.length < cs.length := by
  unfold escape? at h
  split at h
  case h_8 | h_9 => exact Nat.lt_succ_of_le (codePoint?_length h)
  all_goals cases h <;> simp

/-- One more character in front of a text that was read. -/
def prepend (c : Char) (text : List Char × List Char) : List Char × List Char :=
  (c :: text.1, text.2)

/-- The text up to its closing quotation mark on the same line, and what follows. -/
def lineText (quote : Char) (cs : List Char) : Option (List Char × List Char) :=
  match cs with
  | [] => none
  | c :: cs =>
    if c = quote then some ([], cs)
    else if c = '\\' ∧ quote = '"' then
      match _ : escape? cs with
      | none => none
      | some (e, rest) => (lineText quote rest).map (prepend e)
    else if isPlainChar c then (lineText quote cs).map (prepend c)
    else none
termination_by cs.length
decreasing_by
  · exact Nat.lt_succ_of_lt (escape?_length ‹_›)
  · simp

/-- A backslash at the end of a line, from the character behind it on. -/
def isLineEnd (cs : List Char) : Bool := (lineBreak? (skipGap cs)).isSome

/-- The text up to its closing quotation marks, and what follows. Up to two marks in front of the
closing three belong to the text. `folded` says that white space is passed over, as behind a backslash
at the end of a line. -/
def blockText (quote : Char) (folded : Bool) (cs : List Char) : Option (List Char × List Char) :=
  match cs with
  | [] => none
  | c :: cs =>
    if folded && (isGap c || (lineBreak? (c :: cs)).isSome) then blockText quote true cs
    else if c = quote then
      let more := (cs.takeWhile (· == quote)).length
      if more < 2 then (blockText quote false cs).map (prepend c)
      else if more ≤ 4 then some (List.replicate (more - 2) quote, cs.drop more)
      else none
    else if c = '\\' ∧ quote = '"' then
      if isLineEnd cs then blockText quote true cs
      else
        match _ : escape? cs with
        | none => none
        | some (e, rest) => (blockText quote false rest).map (prepend e)
    else if c = '\r' then
      if cs.head? = some '\n' then blockText quote false cs else none
    else if c = '\n' ∨ isPlainChar c then (blockText quote false cs).map (prepend c)
    else none
termination_by cs.length
decreasing_by
  · simp
  · simp
  · simp
  · exact Nat.lt_succ_of_lt (escape?_length ‹_›)
  · simp
  · simp

/-- The text at the start of the document, between quotation marks of either kind. -/
def quoted? (cs : List Char) : Option (List Char × List Char) :=
  match cs with
  | a :: b :: c :: cs =>
    if a = '"' ∨ a = '\'' then
      if b = a ∧ c = a then blockText a false ((lineBreak? cs).getD cs)
      else lineText a (b :: c :: cs)
    else none
  | [a, b] => if (a = '"' ∨ a = '\'') ∧ b = a then some ([], []) else none
  | _ => none

end SlotQuery.Toml
