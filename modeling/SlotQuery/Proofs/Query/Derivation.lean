import SlotQuery.Query.Grammar

/-!
# Derivations of expressions

`Derives` is the grammar of expressions as a relation between tokens and selectors, with the level of
the deepest leaf. The reader with `n` levels finds exactly the derivations whose leaves lie above level
`n` (`level_sound`, `Derives.read`), and at the others it fails for their nesting (`Derives.tooDeep`).
Main statement: `readExpression_iff_derives`.

The left side of a link lies on the level of the link, so a selector may be more than twice as high as
its derivation is deep (`Derives.height_le`, `Derives.exists_height`).
-/

namespace SlotQuery

namespace Grammar

/-- The rules of the grammar. -/
inductive Rule where
  | disjunction
  | conjunction
  | leaf
deriving DecidableEq

/-- The tokens derive from the rule and spell the selector; the deepest leaf lies so many levels down.
The operand of `NOT`, the body of a group and the right side of a link lie one level below. -/
inductive Derives (fields : FieldSet) : Rule → Nat → List Token → Selector → Prop where
  | condition {text : String} {c : Condition} : Condition.compile fields text = .ok c →
      Derives fields .leaf 0 [.condition text] (.condition c)
  | not {d : Nat} {ts : List Token} {s : Selector} : Derives fields .leaf d ts s →
      Derives fields .leaf (d + 1) (.not :: ts) (.not s)
  | group {d : Nat} {ts : List Token} {s : Selector} : Derives fields .disjunction d ts s →
      Derives fields .leaf (d + 1) (.groupOpen :: (ts ++ [.groupClose])) s
  | ofLeaf {d : Nat} {ts : List Token} {s : Selector} : Derives fields .leaf d ts s →
      Derives fields .conjunction d ts s
  | and {d e : Nat} {ts us : List Token} {l r : Selector} : Derives fields .leaf d ts l →
      Derives fields .conjunction e us r →
      Derives fields .conjunction (max d (e + 1)) (ts ++ .and :: us) (.and l r)
  | ofConjunction {d : Nat} {ts : List Token} {s : Selector} : Derives fields .conjunction d ts s →
      Derives fields .disjunction d ts s
  | or {d e : Nat} {ts us : List Token} {l r : Selector} : Derives fields .conjunction d ts l →
      Derives fields .disjunction e us r →
      Derives fields .disjunction (max d (e + 1)) (ts ++ .or :: us) (.or l r)

/-- The tokens with which a text of the rule would go on. -/
def Rule.links : Rule → List Token
  | .disjunction => [.and, .or]
  | .conjunction => [.and]
  | .leaf => []

/-- The tokens do not go on with a text of the rule. -/
def Rule.Stops (rule : Rule) (ts : List Token) : Prop := ∀ t ∈ ts.head?, t ∉ rule.links

/-- The reader of the rule. -/
def Level.reader (level : Level) : Rule → Reader
  | .disjunction => level.disjunction
  | .conjunction => level.conjunction
  | .leaf => level.leaf

variable {fields : FieldSet}

/-! ## What the readers do -/

section Chain

variable {link : Token} {join : Selector → Selector → Selector} {left right : Reader}
  {ts us rest : List Token} {l r s : Selector}

theorem chain_link (hl : left ts = (.ok l, link :: us)) (hr : right us = (.ok r, rest)) :
    chain link join left right ts = (.ok (join l r), rest) := by
  simp [chain, hl, hr]

theorem chain_stop (hl : left ts = (.ok l, rest)) (hlink : ∀ t ∈ rest.head?, t ≠ link) :
    chain link join left right ts = (.ok l, rest) := by
  cases rest with
  | nil => simp [chain, hl]
  | cons t rest => simp [chain, hl, hlink t rfl]

/-- A chain is its left side alone, or goes on behind a link. -/
theorem chain_eq_ok (h : chain link join left right ts = (.ok s, rest)) :
    (left ts = (.ok s, rest) ∧ ∀ t ∈ rest.head?, t ≠ link) ∨
      ∃ l us r, left ts = (.ok l, link :: us) ∧ right us = (.ok r, rest) ∧ s = join l r := by
  unfold chain at h
  split at h
  · next l t us hl =>
    split at h
    · next ht =>
      split at h
      · next r rest' hr =>
        cases h
        exact .inr ⟨l, us, r, ht ▸ hl, hr, rfl⟩
      · cases h
    · next ht =>
      cases h
      exact .inl ⟨hl, by simpa using ht⟩
  · next hl =>
    cases h
    exact .inl ⟨hl, by simp⟩
  · cases h

end Chain

/-- A leaf is a condition, a negation or a group. -/
theorem leaf_eq_ok {below : Level} {ts rest : List Token} {s : Selector}
    (h : leaf fields below ts = (.ok s, rest)) :
    (∃ text c, ts = .condition text :: rest ∧ Condition.compile fields text = .ok c ∧
      s = .condition c) ∨
    (∃ us r, ts = .not :: us ∧ below.leaf us = (.ok r, rest) ∧ s = .not r) ∨
    ∃ us, ts = .groupOpen :: us ∧ below.disjunction us = (.ok s, .groupClose :: rest) := by
  unfold leaf at h
  split at h
  · cases h
  · next us =>
    split at h
    · next r _ hr =>
      cases h
      exact .inr (.inl ⟨us, r, rfl, hr, rfl⟩)
    · cases h
  · next us =>
    split at h
    · next hr =>
      cases h
      exact .inr (.inr ⟨us, rfl, hr⟩)
    · cases h
    · cases h
  · next text us =>
    cases hc : Condition.compile fields text with
    | error e =>
      rw [hc] at h
      cases h
    | ok c =>
      rw [hc] at h
      cases h
      exact .inl ⟨text, c, rfl, hc, rfl⟩
  · cases h

/-! ## Readers and derivations -/

/-- What the readers find derives from their rules with less than `n` levels, and they stop only where
nothing goes on. -/
def Level.Sound (fields : FieldSet) (n : Nat) (level : Level) : Prop :=
  ∀ rule ts s rest, level.reader rule ts = (.ok s, rest) →
    ∃ us d, ts = us ++ rest ∧ d < n ∧ Derives fields rule d us s ∧ rule.Stops rest

theorem Rule.stops_leaf (ts : List Token) : Rule.leaf.Stops ts := by
  intro t _
  exact List.not_mem_nil

theorem leaf_sound {n : Nat} {below : Level} (h : below.Sound fields n) {ts rest : List Token}
    {s : Selector} (hread : leaf fields below ts = (.ok s, rest)) :
    ∃ us d, ts = us ++ rest ∧ d < n + 1 ∧ Derives fields .leaf d us s := by
  rcases leaf_eq_ok hread with ⟨text, c, rfl, hc, rfl⟩ | ⟨us, r, rfl, hr, rfl⟩ | ⟨us, rfl, hr⟩
  · exact ⟨[.condition text], 0, rfl, Nat.succ_pos n, .condition hc⟩
  · obtain ⟨vs, d, rfl, hd, hder, -⟩ := h .leaf us r rest hr
    exact ⟨.not :: vs, d + 1, rfl, Nat.succ_lt_succ hd, .not hder⟩
  · obtain ⟨vs, d, rfl, hd, hder, -⟩ := h .disjunction us s _ hr
    exact ⟨.groupOpen :: (vs ++ [.groupClose]), d + 1, by simp, Nat.succ_lt_succ hd, .group hder⟩

/-- What is read is derived, with leaves above the lowest level. -/
theorem level_sound (fields : FieldSet) (n : Nat) : (level fields n).Sound fields n := by
  induction n with
  | zero =>
    intro rule ts s rest h
    cases rule <;> cases h
  | succ n ih =>
    -- a disjunction starts with a conjunction of the same level, so that comes first
    have hconj : ∀ ts s rest, (level fields (n + 1)).conjunction ts = (.ok s, rest) →
        ∃ us d, ts = us ++ rest ∧ d < n + 1 ∧ Derives fields .conjunction d us s ∧
          Rule.conjunction.Stops rest := by
      intro ts s rest h
      rcases chain_eq_ok h with ⟨hl, hstop⟩ | ⟨l, us, r, hl, hr, rfl⟩
      · obtain ⟨us, d, rfl, hd, hder⟩ := leaf_sound ih hl
        exact ⟨us, d, rfl, hd, .ofLeaf hder, by simpa [Rule.Stops, Rule.links] using hstop⟩
      · obtain ⟨vs, d, rfl, hd, hder⟩ := leaf_sound ih hl
        obtain ⟨ws, e, rfl, he, hder', hstop⟩ := ih .conjunction us r rest hr
        exact ⟨vs ++ .and :: ws, max d (e + 1), by simp, by omega, .and hder hder', hstop⟩
    intro rule ts s rest h
    cases rule with
    | leaf =>
      obtain ⟨us, d, rfl, hd, hder⟩ := leaf_sound ih h
      exact ⟨us, d, rfl, hd, hder, Rule.stops_leaf rest⟩
    | conjunction => exact hconj ts s rest h
    | disjunction =>
      rcases chain_eq_ok h with ⟨hl, hor⟩ | ⟨l, us, r, hl, hr, rfl⟩
      · obtain ⟨us, d, rfl, hd, hder, hand⟩ := hconj ts s rest hl
        refine ⟨us, d, rfl, hd, .ofConjunction hder, fun t ht => ?_⟩
        simpa [Rule.links] using And.intro (by simpa [Rule.links] using hand t ht) (hor t ht)
      · obtain ⟨vs, d, rfl, hd, hder, -⟩ := hconj ts l _ hl
        obtain ⟨ws, e, rfl, he, hder', hstop⟩ := ih .disjunction us r rest hr
        exact ⟨vs ++ .or :: ws, max d (e + 1), by simp, by omega, .or hder hder', hstop⟩

/-- A text that derives from a rule is read, provided that its leaves lie above level `n` and that it
does not go on behind it. -/
theorem Derives.read {rule : Rule} {d : Nat} {us : List Token} {s : Selector}
    (h : Derives fields rule d us s) {n : Nat} (hd : d < n) {rest : List Token}
    (hstop : rule.Stops rest) : (level fields n).reader rule (us ++ rest) = (.ok s, rest) := by
  -- what nests is read one level further down, in front of other tokens
  induction h generalizing n rest with
  | condition hc =>
    obtain ⟨n, rfl⟩ := Nat.exists_eq_succ_of_ne_zero (Nat.ne_zero_of_lt hd)
    simp [Level.reader, level, leaf, hc, Except.map]
  | not _ ih =>
    obtain ⟨n, rfl⟩ := Nat.exists_eq_succ_of_ne_zero (Nat.ne_zero_of_lt hd)
    have hread : (level fields n).leaf _ = _ := ih (Nat.lt_of_succ_lt_succ hd) hstop
    simp [Level.reader, level, leaf, hread]
  | @group d ts s _ ih =>
    obtain ⟨n, rfl⟩ := Nat.exists_eq_succ_of_ne_zero (Nat.ne_zero_of_lt hd)
    have hclose : Rule.disjunction.Stops (.groupClose :: rest) := by simp [Rule.Stops, Rule.links]
    have hread : (level fields n).disjunction (ts ++ .groupClose :: rest) = _ :=
      ih (Nat.lt_of_succ_lt_succ hd) hclose
    simp [Level.reader, level, leaf, hread]
  | ofLeaf _ ih =>
    obtain ⟨n, rfl⟩ := Nat.exists_eq_succ_of_ne_zero (Nat.ne_zero_of_lt hd)
    exact chain_stop (ih hd (Rule.stops_leaf rest)) (by simpa [Rule.Stops, Rule.links] using hstop)
  | @and d e ts us l r _ _ ihl ihr =>
    obtain ⟨n, rfl⟩ := Nat.exists_eq_succ_of_ne_zero (Nat.ne_zero_of_lt hd)
    have hleft : (level fields (n + 1)).leaf (ts ++ .and :: (us ++ rest)) = _ :=
      ihl (by omega) (Rule.stops_leaf _)
    have hright : (level fields n).conjunction (us ++ rest) = _ := ihr (by omega) hstop
    rw [List.append_assoc]
    exact chain_link hleft hright
  | ofConjunction _ ih =>
    obtain ⟨n, rfl⟩ := Nat.exists_eq_succ_of_ne_zero (Nat.ne_zero_of_lt hd)
    have hstop' : ∀ t ∈ rest.head?, t ≠ .and ∧ t ≠ .or := by
      simpa [Rule.Stops, Rule.links] using hstop
    refine chain_stop (ih hd ?_) fun t ht => (hstop' t ht).2
    simpa [Rule.Stops, Rule.links] using fun t ht => (hstop' t ht).1
  | @or d e ts us l r _ _ ihl ihr =>
    obtain ⟨n, rfl⟩ := Nat.exists_eq_succ_of_ne_zero (Nat.ne_zero_of_lt hd)
    have hor : Rule.conjunction.Stops (.or :: (us ++ rest)) := by simp [Rule.Stops, Rule.links]
    have hleft : (level fields (n + 1)).conjunction (ts ++ .or :: (us ++ rest)) = _ :=
      ihl (by omega) hor
    have hright : (level fields n).disjunction (us ++ rest) = _ := ihr (by omega) hstop
    rw [List.append_assoc]
    exact chain_link hleft hright

/-- Tokens start with one text of a rule behind which nothing goes on. -/
theorem Derives.append_inj {rule : Rule} {d d' : Nat} {us us' rest rest' : List Token}
    {s s' : Selector} (h : Derives fields rule d us s) (h' : Derives fields rule d' us' s')
    (hstop : rule.Stops rest) (hstop' : rule.Stops rest') (heq : us ++ rest = us' ++ rest') :
    s = s' ∧ rest = rest' := by
  have hread := h.read (show d < max d d' + 1 by omega) hstop
  have hread' := h'.read (show d' < max d d' + 1 by omega) hstop'
  rw [heq, hread'] at hread
  cases hread
  exact ⟨rfl, rfl⟩

/-! ## Nesting that is too deep -/

section Nesting

variable {rule : Rule} {n : Nat}

/-- The reader failed for the nesting. -/
def TooDeep (result : Except QueryError Selector × List Token) : Prop :=
  ∃ near rest, result = (.error (.nestingTooDeep maxNesting near), rest)

/-- A failure for nesting is passed on from either side of a chain. -/
theorem TooDeep.chain_left {link : Token} {join : Selector → Selector → Selector}
    {left right : Reader} {ts : List Token} (h : TooDeep (left ts)) :
    TooDeep (chain link join left right ts) := by
  obtain ⟨near, rest, hleft⟩ := h
  exact ⟨near, rest, by simp [chain, hleft]⟩

theorem TooDeep.chain_right {link : Token} {join : Selector → Selector → Selector}
    {left right : Reader} {ts us : List Token} {l : Selector} (hl : left ts = (.ok l, link :: us))
    (h : TooDeep (right us)) : TooDeep (chain link join left right ts) := by
  obtain ⟨near, rest, hright⟩ := h
  exact ⟨near, rest, by simp [chain, hl, hright]⟩

theorem TooDeep.not {ts : List Token} (h : TooDeep ((level fields n).leaf ts)) :
    TooDeep ((level fields (n + 1)).leaf (.not :: ts)) := by
  obtain ⟨near, rest, hleaf⟩ := h
  exact ⟨near, rest, by simp [level, leaf, hleaf]⟩

theorem TooDeep.group {ts : List Token} (h : TooDeep ((level fields n).disjunction ts)) :
    TooDeep ((level fields (n + 1)).leaf (.groupOpen :: ts)) := by
  obtain ⟨near, rest, hbody⟩ := h
  exact ⟨near, rest, by simp [level, leaf, hbody]⟩

theorem TooDeep.conjunction {ts : List Token} (h : TooDeep ((level fields n).leaf ts)) :
    TooDeep ((level fields n).conjunction ts) := by
  cases n with
  | zero => exact h
  | succ n => exact h.chain_left

theorem TooDeep.disjunction {ts : List Token} (h : TooDeep ((level fields n).conjunction ts)) :
    TooDeep ((level fields n).disjunction ts) := by
  cases n with
  | zero => exact h
  | succ n => exact h.chain_left

/-- The right side of `AND` lies one level below the left side. -/
theorem TooDeep.and {d e : Nat} {ls us : List Token} {l : Selector}
    (hl : Derives fields .leaf d ls l)
    (hleft : n ≤ d → TooDeep ((level fields n).leaf (ls ++ .and :: us)))
    (hright : ∀ m ≤ e, TooDeep ((level fields m).conjunction us)) (hn : n ≤ max d (e + 1)) :
    TooDeep ((level fields n).conjunction (ls ++ .and :: us)) := by
  by_cases hd : n ≤ d
  · exact (hleft hd).conjunction
  · obtain ⟨m, rfl⟩ := Nat.exists_eq_succ_of_ne_zero (show n ≠ 0 by omega)
    have hread := hl.read (Nat.lt_of_not_le hd) (Rule.stops_leaf (.and :: us))
    have hm : m ≤ e := by omega
    exact TooDeep.chain_right hread (hright m hm)

/-- The right side of `OR` lies one level below the left side. -/
theorem TooDeep.or {d e : Nat} {ls us : List Token} {l : Selector}
    (hl : Derives fields .conjunction d ls l)
    (hleft : n ≤ d → TooDeep ((level fields n).conjunction (ls ++ .or :: us)))
    (hright : ∀ m ≤ e, TooDeep ((level fields m).disjunction us)) (hn : n ≤ max d (e + 1)) :
    TooDeep ((level fields n).disjunction (ls ++ .or :: us)) := by
  by_cases hd : n ≤ d
  · exact (hleft hd).disjunction
  · obtain ⟨m, rfl⟩ := Nat.exists_eq_succ_of_ne_zero (show n ≠ 0 by omega)
    have hstop : Rule.conjunction.Stops (.or :: us) := by simp [Rule.Stops, Rule.links]
    have hread := hl.read (Nat.lt_of_not_le hd) hstop
    have hm : m ≤ e := by omega
    exact TooDeep.chain_right hread (hright m hm)

/-- A text that derives from a rule is not read without a level for its deepest leaf, whatever follows. -/
theorem Derives.tooDeep {d : Nat} {us : List Token} {s : Selector}
    (h : Derives fields rule d us s) (hn : n ≤ d) (rest : List Token) :
    TooDeep ((level fields n).reader rule (us ++ rest)) := by
  -- what nests has a level less, so fewer are left for its own leaves
  induction h generalizing n rest with
  | condition _ =>
    obtain rfl : n = 0 := Nat.le_zero.1 hn
    exact ⟨_, _, rfl⟩
  | not _ ih =>
    cases n with
    | zero => exact ⟨_, _, rfl⟩
    | succ n => exact TooDeep.not (ih (Nat.le_of_succ_le_succ hn) rest)
  | group _ ih =>
    cases n with
    | zero => exact ⟨_, _, rfl⟩
    | succ n =>
      rw [List.cons_append, List.append_assoc]
      exact TooDeep.group (ih (Nat.le_of_succ_le_succ hn) _)
  | ofLeaf _ ih => exact TooDeep.conjunction (ih hn rest)
  | and hl _ ihl ihr =>
    rw [List.append_assoc]
    exact TooDeep.and hl (fun hd => ihl hd _) (fun m hm => ihr hm rest) hn
  | ofConjunction _ ih => exact TooDeep.disjunction (ih hn rest)
  | or hl _ ihl ihr =>
    rw [List.append_assoc]
    exact TooDeep.or hl (fun hd => ihl hd _) (fun m hm => ihr hm rest) hn

theorem TooDeep.not_ok {s : Selector} {rest : List Token} : ¬TooDeep (.ok s, rest) := by
  rintro ⟨near, rest', h⟩
  cases h

/-- The level of the deepest leaf is the tokens' own. -/
theorem Derives.level_unique {d d' : Nat} {us : List Token} {s s' : Selector}
    (h : Derives fields rule d us s) (h' : Derives fields rule d' us s') : d = d' := by
  -- the reader that has one level more than one of them tells whether the other lies deeper
  have hle {e e' : Nat} {r r' : Selector} (h : Derives fields rule e us r)
      (h' : Derives fields rule e' us r') : e' ≤ e := by
    refine Nat.le_of_not_lt fun hlt => ?_
    have hread : (level fields (e + 1)).reader rule (us ++ []) = (.ok r, []) :=
      h.read (Nat.lt_succ_self e) (by simp [Rule.Stops])
    have hdeep := h'.tooDeep (Nat.succ_le_of_lt hlt) []
    rw [hread] at hdeep
    exact hdeep.not_ok
  exact Nat.le_antisymm (hle h' h) (hle h h')

end Nesting

end Grammar

/-! ## Levels and heights -/

/-- The longest path from the root to a condition. -/
def Selector.height : Selector → Nat
  | condition _ => 0
  | and left right | or left right => max left.height right.height + 1
  | not s => s.height + 1

/-- The level of the deepest condition, where the left side of a link stays on the level of the link.
-/
def Selector.levels : Selector → Nat
  | condition _ => 0
  | and left right | or left right => max left.levels (right.levels + 1)
  | not s => s.levels + 1

namespace Grammar

variable {fields : FieldSet} {rule : Rule} {d : Nat} {ts : List Token} {s : Selector}

/-- A selector has no more levels than its derivation. -/
theorem Derives.levels_le (h : Derives fields rule d ts s) : s.levels ≤ d := by
  induction h with
  | condition _ => exact Nat.le_refl 0
  | not _ ih => exact Nat.succ_le_succ ih
  | group _ ih => exact Nat.le_succ_of_le ih
  | ofLeaf _ ih | ofConjunction _ ih => exact ih
  | and _ _ ihl ihr | or _ _ ihl ihr =>
    rw [Selector.levels]
    omega

/-- The height that a text of the rule reaches with leaves on level `d`. -/
def Rule.maxHeight (d : Nat) : Rule → Nat
  | .leaf => 2 * d - 1
  | .conjunction => 2 * d
  | .disjunction => 2 * d + 1

theorem Derives.height_le (h : Derives fields rule d ts s) : s.height ≤ rule.maxHeight d := by
  induction h with
  | condition _ => exact Nat.le_refl 0
  | not _ ih | group _ ih | ofLeaf _ ih | ofConjunction _ ih =>
    simp only [Selector.height, Rule.maxHeight] at ih ⊢
    omega
  | and _ _ ihl ihr | or _ _ ihl ihr =>
    simp only [Selector.height, Rule.maxHeight] at ihl ihr ⊢
    omega

/-- A leaf takes two links on its way to a leaf one level further down: in `(l AND c OR c)` both leave
`l` on the level of the group's body. -/
theorem Derives.exists_height {text : String} {c : Condition}
    (hc : Condition.compile fields text = .ok c) (d : Nat) :
    ∃ ts s, Derives fields .leaf (d + 1) ts s ∧ s.height = Rule.leaf.maxHeight (d + 1) := by
  have hcond : Derives fields .leaf 0 _ _ := .condition hc
  induction d with
  | zero => exact ⟨_, _, .not hcond, rfl⟩
  | succ d ih =>
    obtain ⟨ts, s, hder, hheight⟩ := ih
    have hgroup := Derives.group (.or (.and hder (.ofLeaf hcond)) (.ofConjunction (.ofLeaf hcond)))
    rw [show max (max (d + 1) (0 + 1)) (0 + 1) + 1 = d + 1 + 1 by omega] at hgroup
    refine ⟨_, _, hgroup, ?_⟩
    simp only [Selector.height, Rule.maxHeight] at hheight ⊢
    omega

/-- Negations in front raise a selector by as much as they take it down. -/
theorem Derives.nots (h : Derives fields .leaf d ts s) (n : Nat) :
    ∃ s', Derives fields .leaf (d + n) (List.replicate n .not ++ ts) s' ∧
      s'.height = s.height + n := by
  induction n with
  | zero => exact ⟨s, h, rfl⟩
  | succ n ih =>
    obtain ⟨s', hder, hheight⟩ := ih
    exact ⟨.not s', .not hder, congrArg (· + 1) hheight⟩

/-- A link with `n` negations on its left side is higher than its leaves are deep. -/
theorem Derives.exists_nots_and {text : String} {c : Condition}
    (hc : Condition.compile fields text = .ok c) (n : Nat) :
    ∃ s, Derives fields .disjunction (max n 1)
        (List.replicate n .not ++ [.condition text, .and, .condition text]) s ∧
      s.height = n + 1 := by
  have hcond : Derives fields .leaf 0 _ _ := .condition hc
  obtain ⟨l, hder, hheight⟩ := hcond.nots n
  have hlink := Derives.ofConjunction (.and hder (.ofLeaf hcond))
  rw [Nat.zero_add, Nat.zero_add, List.append_assoc] at hlink
  refine ⟨_, hlink, ?_⟩
  simp only [Selector.height] at hheight ⊢
  omega

/-! ## The front of the tokens -/

/-- The first `k` tokens spell the selector, no leaf lies below the deepest level, and no keyword
behind them carries the expression on. -/
structure Front (fields : FieldSet) (ts : List Token) (s : Selector) (k : Nat) : Prop where
  cursor_le : k ≤ ts.length
  derives : ∃ d ≤ maxNesting, Derives fields .disjunction d (ts.take k) s
  not_and : ts[k]? ≠ some .and
  not_or : ts[k]? ≠ some .or

theorem stops_disjunction_iff {k : Nat} :
    Rule.disjunction.Stops (ts.drop k) ↔ ts[k]? ≠ some .and ∧ ts[k]? ≠ some .or := by
  rw [Rule.Stops, List.head?_drop]
  cases ts[k]? <;> simp [Rule.links]

theorem Front.of_derives (h : Derives fields .disjunction d ts s) (hd : d ≤ maxNesting) :
    Front fields ts s ts.length where
  cursor_le := Nat.le_refl _
  derives := ⟨d, hd, by rwa [List.take_length]⟩
  not_and := by simp
  not_or := by simp

theorem Derives.readExpression_eq (h : Derives fields .disjunction d ts s) (hd : d ≤ maxNesting) :
    readExpression fields ts = (.ok s, []) := by
  have hstop : Rule.disjunction.Stops [] := by simp [Rule.Stops]
  have hread := h.read (Nat.lt_succ_of_le hd) hstop
  rwa [List.append_nil] at hread

theorem Derives.readExpression_tooDeep (h : Derives fields .disjunction d ts s)
    (hd : maxNesting < d) : TooDeep (readExpression fields ts) := by
  have hdeep := h.tooDeep (Nat.succ_le_of_lt hd) []
  rwa [List.append_nil] at hdeep

/-- All tokens are read where they derive the selector within the levels there are. -/
theorem readExpression_eq_nil_iff :
    readExpression fields ts = (.ok s, []) ↔ ∃ d ≤ maxNesting, Derives fields .disjunction d ts s := by
  refine ⟨fun h => ?_, fun ⟨d, hd, h⟩ => h.readExpression_eq hd⟩
  obtain ⟨us, d, rfl, hd, hder, -⟩ := level_sound fields (maxNesting + 1) .disjunction ts s [] h
  exact ⟨d, Nat.le_of_lt_succ hd, by rwa [List.append_nil]⟩

/-- What is derived in front of the tokens is read from them. -/
theorem Front.read {k : Nat} (h : Front fields ts s k) :
    readExpression fields ts = (.ok s, ts.drop k) := by
  obtain ⟨d, hd, hder⟩ := h.derives
  have hread := hder.read (Nat.lt_succ_of_le hd) (stops_disjunction_iff.2 ⟨h.not_and, h.not_or⟩)
  rwa [List.take_append_drop] at hread

/-- What is read is derived from the tokens in front. -/
theorem front_of_readExpression {rest : List Token} (h : readExpression fields ts = (.ok s, rest)) :
    ∃ k, Front fields ts s k ∧ rest = ts.drop k := by
  obtain ⟨us, d, rfl, hd, hder, hstop⟩ :=
    level_sound fields (maxNesting + 1) .disjunction ts s rest h
  obtain ⟨hand, hor⟩ := stops_disjunction_iff.1
    (show Rule.disjunction.Stops ((us ++ rest).drop us.length) by rwa [List.drop_left])
  refine ⟨us.length, ⟨by simp, ⟨d, Nat.le_of_lt_succ hd, ?_⟩, hand, hor⟩, by rw [List.drop_left]⟩
  rwa [List.take_left]

end Grammar

open Grammar

/-- **Reading an expression.** The reader answers with a selector and the tokens behind the first `k`
exactly where these derive the selector within the levels there are and nothing carries them on. Both
are unique. The selector has at most `maxNesting` levels, and its height is bounded by twice as much and
one, a bound that is reached. -/
theorem readExpression_iff_derives (fields : FieldSet) (ts : List Token) :
    (∀ s rest, readExpression fields ts = (.ok s, rest) ↔
      ∃ k, Front fields ts s k ∧ rest = ts.drop k) ∧
    (∀ s k s' k', Front fields ts s k → Front fields ts s' k' → s = s' ∧ k = k') ∧
    (∀ s rest, readExpression fields ts = (.ok s, rest) →
      s.levels ≤ maxNesting ∧ s.height ≤ 2 * maxNesting + 1) ∧
    ((∃ text c, Condition.compile fields text = .ok c) →
      ∃ us s, readExpression fields us = (.ok s, []) ∧ s.height = 2 * maxNesting + 1) := by
  refine ⟨fun s rest => ⟨front_of_readExpression, ?_⟩, fun s k s' k' h h' => ?_,
    fun s rest h => ?_, ?_⟩
  · rintro ⟨k, hfront, rfl⟩
    exact hfront.read
  · obtain ⟨hs, hdrop⟩ := Prod.mk.inj (h.read.symm.trans h'.read)
    have hlen := congrArg List.length hdrop
    rw [List.length_drop, List.length_drop] at hlen
    have hk := h.cursor_le
    have hk' := h'.cursor_le
    exact ⟨Except.ok.inj hs, by omega⟩
  · obtain ⟨k, ⟨-, ⟨d, hd, hder⟩, -, -⟩, -⟩ := front_of_readExpression h
    have hlevels := hder.levels_le
    have hheight : s.height ≤ 2 * d + 1 := hder.height_le
    exact ⟨by omega, by omega⟩
  · rintro ⟨text, c, hc⟩
    have hcond : Derives fields .leaf 0 _ _ := .condition hc
    obtain ⟨us, l, hder, hheight⟩ := Derives.exists_height hc (maxNesting - 1)
    have hexpr := Derives.or (.and hder (.ofLeaf hcond)) (.ofConjunction (.ofLeaf hcond))
    refine ⟨_, _, hexpr.readExpression_eq (by decide), ?_⟩
    simp only [Selector.height, hheight]
    rfl

/-- Below `maxNesting` negations on the left side of a link the height is larger than `maxNesting`,
with all leaves on the levels that there are. -/
theorem maxNesting_lt_height :
    ∃ s, Front (FieldSet.ofList ["a"]) (List.replicate maxNesting .not ++
        [.condition "[a=1]", .and, .condition "[a=1]"]) s (maxNesting + 3) ∧
      readExpression (FieldSet.ofList ["a"]) (List.replicate maxNesting .not ++
        [.condition "[a=1]", .and, .condition "[a=1]"]) = (.ok s, []) ∧
      maxNesting < s.height := by
  have hc : ∃ c, Condition.compile (FieldSet.ofList ["a"]) "[a=1]" = .ok c := ⟨_, rfl⟩
  obtain ⟨c, hc⟩ := hc
  obtain ⟨s, hder, hheight⟩ := Derives.exists_nots_and hc maxNesting
  have hdepth : max maxNesting 1 ≤ maxNesting := by decide
  exact ⟨s, .of_derives hder hdepth, hder.readExpression_eq hdepth, by omega⟩

end SlotQuery
