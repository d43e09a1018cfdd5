import SlotQuery.Query.Selector
import SlotQuery.Query.Token

/-!
# Reading expressions

    disjunction := conjunction ("OR" disjunction)?
    conjunction := leaf ("AND" conjunction)?
    leaf        := "NOT" leaf | "(" disjunction ")" | condition

The operand of `NOT`, the body of a group and the right side of a link are read one level further
down, and there are finitely many levels. A reader answers with the tokens it left, after an error
too, so that reading can go on from there.
-/

namespace SlotQuery

/-- The deepest level of an expression; its outermost tokens are at level 0. -/
def maxNesting : Nat := 128

/-- A reader of one expression: what it read, and the tokens it left. -/
abbrev Reader := List Token → Except QueryError Selector × List Token

namespace Grammar

/-- The readers of one level. -/
structure Level where
  disjunction : Reader
  conjunction : Reader
  leaf : Reader

/-- The reader below the deepest level: it takes nothing and fails. -/
def tooDeep : Reader := fun ts =>
  (.error (.nestingTooDeep maxNesting (Token.peek ts).display), ts)

/-- Reads a leaf, with what nests in it one level below. -/
def leaf (fields : FieldSet) (below : Level) : Reader
  | [] => (.error (.invalidCondition Token.endOfInput.display), [])
  | .not :: ts =>
    match below.leaf ts with
    | (.ok s, ts) => (.ok (.not s), ts)
    | (.error e, ts) => (.error e, ts)
  | .groupOpen :: ts =>
    match below.disjunction ts with
    | (.ok s, .groupClose :: ts) => (.ok s, ts)
    | (.ok _, ts) => (.error (.expectedCloseParen (Token.peek ts).display), ts)
    | (.error e, ts) => (.error e, ts)
  | .condition text :: ts => ((Condition.compile fields text).map Selector.condition, ts)
  | t :: ts => (.error (.invalidCondition t.display), ts)

/-- Reads a left side and, where the token `link` follows it, a right side. -/
def chain (link : Token) (join : Selector → Selector → Selector) (left right : Reader) : Reader :=
  fun ts =>
    match left ts with
    | (.ok l, t :: ts) =>
      if t = link then
        match right ts with
        | (.ok r, ts) => (.ok (join l r), ts)
        | (.error e, ts) => (.error e, ts)
      else (.ok l, t :: ts)
    | (.ok l, []) => (.ok l, [])
    | (.error e, ts) => (.error e, ts)

/-- The readers that have `n` levels, their own included. -/
def level (fields : FieldSet) : Nat → Level
  | 0 => ⟨tooDeep, tooDeep, tooDeep⟩
  | n + 1 =>
    let below := level fields n
    let leaf := leaf fields below
    let conjunction := chain .and .and leaf below.conjunction
    ⟨chain .or .or conjunction below.disjunction, conjunction, leaf⟩

/-- The reader leaves no more tokens than there were. -/
def Shrinks (r : Reader) : Prop := ∀ ts, (r ts).2.length ≤ ts.length

/-- The reader takes a token if there is one. -/
def Advances (r : Reader) : Prop := ∀ t ts, (r (t :: ts)).2.length ≤ ts.length

theorem Advances.shrinks {r : Reader} (h : Advances r) (hnil : (r []).2 = []) : Shrinks r
  | [] => by simp [hnil]
  | t :: ts => Nat.le_succ_of_le (h t ts)

theorem leaf_advances {fields : FieldSet} {below : Level} (hleaf : Shrinks below.leaf)
    (hgroup : Shrinks below.disjunction) : Advances (leaf fields below) := by
  intro t ts
  have hl := hleaf ts
  have hg := hgroup ts
  unfold leaf
  split
  · simp
  · next heq =>
    cases heq
    split <;> next hb => rw [hb] at hl; exact hl
  · next heq =>
    cases heq
    split
    · next hb => rw [hb] at hg; exact Nat.le_of_succ_le hg
    · next hb => rw [hb] at hg; exact hg
    · next hb => rw [hb] at hg; exact hg
  · next heq => cases heq; exact Nat.le_refl _
  · next heq => cases heq; exact Nat.le_refl _

theorem chain_length_le {link : Token} {join : Selector → Selector → Selector} {left right : Reader}
    (hright : Shrinks right) (ts : List Token) :
    (chain link join left right ts).2.length ≤ (left ts).2.length := by
  unfold chain
  split
  · next l t rest heq =>
    have hr := hright rest
    rw [heq]
    split
    · split <;> next hb => rw [hb] at hr; exact Nat.le_succ_of_le hr
    · exact Nat.le_refl _
  · simp
  · next heq => simp [heq]

theorem chain_advances {link : Token} {join : Selector → Selector → Selector} {left right : Reader}
    (hleft : Advances left) (hright : Shrinks right) : Advances (chain link join left right) :=
  fun t ts => Nat.le_trans (chain_length_le hright (t :: ts)) (hleft t ts)

theorem chain_shrinks {link : Token} {join : Selector → Selector → Selector} {left right : Reader}
    (hleft : Shrinks left) (hright : Shrinks right) : Shrinks (chain link join left right) :=
  fun ts => Nat.le_trans (chain_length_le hright ts) (hleft ts)

theorem level_shrinks (fields : FieldSet) (n : Nat) :
    Shrinks (level fields n).leaf ∧ Shrinks (level fields n).conjunction ∧
      Shrinks (level fields n).disjunction := by
  induction n with
  | zero => exact ⟨fun _ => Nat.le_refl _, fun _ => Nat.le_refl _, fun _ => Nat.le_refl _⟩
  | succ n ih =>
    obtain ⟨hl, hc, hd⟩ := ih
    have hleaf : Shrinks (leaf fields (level fields n)) := (leaf_advances hl hd).shrinks rfl
    have hconj : Shrinks (chain .and .and _ _) := chain_shrinks hleaf hc
    exact ⟨hleaf, hconj, chain_shrinks hconj hd⟩

theorem level_advances (fields : FieldSet) (n : Nat) :
    Advances (level fields (n + 1)).disjunction := by
  obtain ⟨hl, hc, hd⟩ := level_shrinks fields n
  exact chain_advances (chain_advances (leaf_advances hl hd) hc) hd

end Grammar

/-- Reads one expression from the front of the tokens. -/
def readExpression (fields : FieldSet) : Reader :=
  (Grammar.level fields (maxNesting + 1)).disjunction

/-- One expression takes at least one token, if there is one. -/
theorem readExpression_advances (fields : FieldSet) : Grammar.Advances (readExpression fields) :=
  Grammar.level_advances fields maxNesting

end SlotQuery
