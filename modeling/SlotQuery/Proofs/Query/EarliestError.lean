import SlotQuery.Proofs.Query.Calls

/-!
# Where errors are reported

Reading left to right, a rule either has what it needs or awaits one thing: a leaf, or the token that
closes the group that is open (`Awaits`). Whatever it awaits, the tokens that it has read can be
completed (`Awaits.completes`), while a token that is not awaited is refused, whatever stands behind it
(`Awaits.refuses`). Conversely a rule fails only there, at a condition that does not compile, or below
the deepest level (`level_fails`). Main statement: `Parser.outOfPlace_earliest`.
-/

namespace SlotQuery

namespace Grammar

/-- What a rule may be waiting for. -/
inductive Awaited where
  | leaf
  | closeParen
deriving DecidableEq

namespace Awaited

/-- No rule goes on with the token. -/
def Refuses (t : Token) : Awaited → Prop
  | leaf => t ≠ .not ∧ t ≠ .groupOpen ∧ ∀ text, t ≠ .condition text
  | closeParen => t ≠ .groupClose ∧ t ∉ Rule.disjunction.links

/-- The error about the token that comes instead. -/
def error (t : Token) : Awaited → QueryError
  | leaf => .invalidCondition t.display
  | closeParen => .expectedCloseParen t.display

/-- What is left of the tokens: the one that is not a leaf is read, the one that does not close the
group is looked at only. -/
def left (ts : List Token) : Awaited → List Token
  | leaf => ts.tail
  | closeParen => ts

end Awaited

/-- The rule with `n` levels reads the tokens and then waits. -/
inductive Awaits (fields : FieldSet) : Rule → Nat → List Token → Awaited → Prop where
  | leaf {n : Nat} : Awaits fields .leaf (n + 1) [] .leaf
  | not {n : Nat} {ts : List Token} {x : Awaited} : Awaits fields .leaf n ts x →
      Awaits fields .leaf (n + 1) (.not :: ts) x
  | body {n : Nat} {ts : List Token} {x : Awaited} : Awaits fields .disjunction n ts x →
      Awaits fields .leaf (n + 1) (.groupOpen :: ts) x
  | closeParen {n d : Nat} {ts : List Token} {s : Selector} :
      Derives fields .disjunction d ts s → d < n →
      Awaits fields .leaf (n + 1) (.groupOpen :: ts) .closeParen
  | ofLeaf {n : Nat} {ts : List Token} {x : Awaited} : Awaits fields .leaf n ts x →
      Awaits fields .conjunction n ts x
  | and {n d : Nat} {ts us : List Token} {l : Selector} {x : Awaited} :
      Derives fields .leaf d ts l → d < n + 1 → Awaits fields .conjunction n us x →
      Awaits fields .conjunction (n + 1) (ts ++ .and :: us) x
  | ofConjunction {n : Nat} {ts : List Token} {x : Awaited} : Awaits fields .conjunction n ts x →
      Awaits fields .disjunction n ts x
  | or {n d : Nat} {ts us : List Token} {l : Selector} {x : Awaited} :
      Derives fields .conjunction d ts l → d < n + 1 → Awaits fields .disjunction n us x →
      Awaits fields .disjunction (n + 1) (ts ++ .or :: us) x

variable {fields : FieldSet} {rule : Rule} {n : Nat} {ts us rest : List Token} {x : Awaited}
  {e : QueryError}

/-! ## What is awaited can come -/

/-- What a rule waits for can come within its levels: a leaf is a condition, and the groups that are
open get closed behind it. -/
theorem Awaits.completes {text : String} {c : Condition}
    (hc : Condition.compile fields text = .ok c) (h : Awaits fields rule n ts x) :
    ∃ us d s, d < n ∧ Derives fields rule d (ts ++ us) s := by
  induction h with
  | leaf => exact ⟨[.condition text], 0, _, Nat.succ_pos _, .condition hc⟩
  | not _ ih =>
    obtain ⟨us, d, s, hd, hder⟩ := ih
    exact ⟨us, d + 1, _, Nat.succ_lt_succ hd, .not hder⟩
  | body _ ih =>
    obtain ⟨us, d, s, hd, hder⟩ := ih
    refine ⟨us ++ [.groupClose], d + 1, s, Nat.succ_lt_succ hd, ?_⟩
    rw [List.cons_append, ← List.append_assoc]
    exact .group hder
  | closeParen hder hd => exact ⟨[.groupClose], _, _, Nat.succ_lt_succ hd, .group hder⟩
  | ofLeaf _ ih =>
    obtain ⟨us, d, s, hd, hder⟩ := ih
    exact ⟨us, d, s, hd, .ofLeaf hder⟩
  | and hl hd _ ih =>
    obtain ⟨us, e, s, he, hder⟩ := ih
    have hand := Derives.and hl hder
    rw [← List.cons_append, ← List.append_assoc] at hand
    exact ⟨us, _, _, Nat.max_lt.2 ⟨hd, Nat.succ_lt_succ he⟩, hand⟩
  | ofConjunction _ ih =>
    obtain ⟨us, d, s, hd, hder⟩ := ih
    exact ⟨us, d, s, hd, .ofConjunction hder⟩
  | or hl hd _ ih =>
    obtain ⟨us, e, s, he, hder⟩ := ih
    have hor := Derives.or hl hder
    rw [← List.cons_append, ← List.append_assoc] at hor
    exact ⟨us, _, _, Nat.max_lt.2 ⟨hd, Nat.succ_lt_succ he⟩, hor⟩

/-! ## What is not awaited is refused -/

theorem chain_error {link : Token} {join : Selector → Selector → Selector} {left right : Reader}
    (hl : left ts = (.error e, rest)) : chain link join left right ts = (.error e, rest) := by
  simp [chain, hl]

theorem Rule.stops_iff_peek : rule.Stops ts ↔ Token.peek ts ∉ rule.links := by
  cases ts with
  | nil => cases rule <;> simp [Rule.Stops, Rule.links, Token.peek]
  | cons t ts => simp [Rule.Stops, Token.peek]

theorem leaf_refuses {below : Level} (h : Awaited.leaf.Refuses (Token.peek ts)) :
    leaf fields below ts = (.error (Awaited.leaf.error (Token.peek ts)), ts.tail) := by
  obtain ⟨hnot, hopen, hcond⟩ := h
  cases ts with
  | nil => rfl
  | cons t ts =>
    cases t with
    | not => exact absurd rfl hnot
    | groupOpen => exact absurd rfl hopen
    | condition text => exact absurd rfl (hcond text)
    | and | or | groupClose | endOfInput => rfl

theorem Awaits.exists_eq_succ (h : Awaits fields rule n ts x) : ∃ m, n = m + 1 := by
  induction h with
  | leaf | not _ _ | body _ _ | closeParen _ _ | and _ _ _ _ | or _ _ _ _ => exact ⟨_, rfl⟩
  | ofLeaf _ ih | ofConjunction _ ih => exact ih

/-- A token that a rule does not wait for is refused, whatever stands behind it. -/
theorem Awaits.refuses (h : Awaits fields rule n ts x) (hx : x.Refuses (Token.peek rest)) :
    (level fields n).reader rule (ts ++ rest) =
      (.error (x.error (Token.peek rest)), x.left rest) := by
  induction h with
  | leaf => exact leaf_refuses hx
  | not _ ih =>
    have hread : (level fields _).leaf _ = _ := ih hx
    simp [Level.reader, level, leaf_not, hread, Except.map]
  | body _ ih =>
    have hread : (level fields _).disjunction _ = _ := ih hx
    simp [Level.reader, level, Grammar.leaf, hread]
  | @closeParen n d ts s hder hd =>
    have hbody : (level fields n).disjunction (ts ++ rest) = _ :=
      hder.read hd (Rule.stops_iff_peek.2 hx.2)
    exact group_refuses fields hbody hx.1
  | ofLeaf h ih | ofConjunction h ih =>
    obtain ⟨m, rfl⟩ := h.exists_eq_succ
    exact chain_error (ih hx)
  | @and n d ts us l x hder hd _ ih =>
    have hleft : (level fields (n + 1)).leaf (ts ++ .and :: (us ++ rest)) = _ :=
      hder.read hd (Rule.stops_leaf _)
    have hright : (level fields n).conjunction (us ++ rest) = _ := ih hx
    rw [List.append_assoc]
    exact (chain_of_link hleft).trans (by rw [hright]; rfl)
  | @or n d ts us l x hder hd _ ih =>
    have hor : Rule.conjunction.Stops (.or :: (us ++ rest)) := by simp [Rule.Stops, Rule.links]
    have hleft : (level fields (n + 1)).conjunction (ts ++ .or :: (us ++ rest)) = _ :=
      hder.read hd hor
    have hright : (level fields n).disjunction (us ++ rest) = _ := ih hx
    rw [List.append_assoc]
    exact (chain_of_link hleft).trans (by rw [hright]; rfl)

/-! ## Nothing else fails -/

theorem leaf_eq_error {below : Level} (h : leaf fields below ts = (.error e, rest)) :
    (Awaited.leaf.Refuses (Token.peek ts) ∧ e = Awaited.leaf.error (Token.peek ts) ∧
      rest = ts.tail) ∨
    (∃ text, ts = .condition text :: rest ∧ Condition.compile fields text = .error e) ∨
    (∃ us, ts = .not :: us ∧ below.leaf us = (.error e, rest)) ∨
    (∃ us, ts = .groupOpen :: us ∧ below.disjunction us = (.error e, rest)) ∨
    ∃ us s, ts = .groupOpen :: us ∧ below.disjunction us = (.ok s, rest) ∧
      Token.peek rest ≠ .groupClose ∧ e = Awaited.closeParen.error (Token.peek rest) := by
  cases ts with
  | nil =>
    cases h
    exact .inl ⟨by simp [Awaited.Refuses, Token.peek], rfl, rfl⟩
  | cons t us =>
    cases t with
    | condition text =>
      cases hc : Condition.compile fields text with
      | ok c =>
        rw [leaf, hc] at h
        cases h
      | error e' =>
        rw [leaf, hc] at h
        cases h
        exact .inr (.inl ⟨text, rfl, hc⟩)
    | not =>
      rw [leaf_not] at h
      cases hread : below.leaf us with
      | mk result left =>
        rw [hread] at h
        cases result with
        | ok r => cases h
        | error e' =>
          cases h
          exact .inr (.inr (.inl ⟨us, rfl, hread⟩))
    | groupOpen =>
      cases hread : below.disjunction us with
      | mk result left =>
        cases result with
        | error e' =>
          simp only [leaf, hread] at h
          cases h
          exact .inr (.inr (.inr (.inl ⟨us, rfl, hread⟩)))
        | ok s =>
          by_cases hclose : Token.peek left = .groupClose
          · obtain ⟨vs, rfl⟩ := Token.exists_cons_of_peek hclose (by decide)
            simp only [leaf, hread] at h
            cases h
          · rw [group_refuses fields hread hclose] at h
            cases h
            exact .inr (.inr (.inr (.inr ⟨us, s, rfl, hread, hclose, rfl⟩)))
    | and | or | groupClose | endOfInput =>
      cases h
      exact .inl ⟨by simp [Awaited.Refuses, Token.peek], rfl, rfl⟩

theorem chain_eq_error {link : Token} {join : Selector → Selector → Selector} {left right : Reader}
    (h : chain link join left right ts = (.error e, rest)) :
    left ts = (.error e, rest) ∨
      ∃ l us, left ts = (.ok l, link :: us) ∧ right us = (.error e, rest) := by
  unfold chain at h
  split at h
  · next l t us hl =>
    split at h
    · next ht =>
      split at h
      · cases h
      · next hr =>
        cases h
        exact .inr ⟨l, us, ht ▸ hl, hr⟩
    · cases h
  · cases h
  · next hl =>
    cases h
    exact .inl hl

/-- How the rule with `n` levels can fail in front of tokens, with which error, and which of them it
leaves. -/
inductive Fails (fields : FieldSet) (rule : Rule) (n : Nat) :
    List Token → QueryError → List Token → Prop where
  | outOfPlace {ts rest : List Token} {x : Awaited} : Awaits fields rule n ts x →
      x.Refuses (Token.peek rest) →
      Fails fields rule n (ts ++ rest) (x.error (Token.peek rest)) (x.left rest)
  | condition {ts rest : List Token} {text : String} {e : QueryError} :
      Condition.compile fields text = .error e →
      Fails fields rule n (ts ++ .condition text :: rest) e rest
  | tooDeep {ts rest : List Token} {near : String} :
      Fails fields rule n ts (.nestingTooDeep maxNesting near) rest

/-- A rule fails like the one that it calls behind the tokens `ts`. -/
theorem Fails.behind {rule' : Rule} {m : Nat} {left : List Token} (h : Fails fields rule m us e left)
    (ts : List Token)
    (hcall : ∀ vs x, Awaits fields rule m vs x → Awaits fields rule' n (ts ++ vs) x) :
    Fails fields rule' n (ts ++ us) e left := by
  cases h with
  | outOfPlace h hx =>
    rw [← List.append_assoc]
    exact .outOfPlace (hcall _ _ h) hx
  | condition hc =>
    rw [← List.append_assoc]
    exact .condition hc
  | tooDeep => exact .tooDeep

/-- Where the readers of the level fail, the rules with `n` levels can. -/
def Level.FailsAs (fields : FieldSet) (n : Nat) (level : Level) : Prop :=
  ∀ rule ts e rest, level.reader rule ts = (.error e, rest) → Fails fields rule n ts e rest

theorem leaf_fails (h : (level fields n).FailsAs fields n)
    (hread : leaf fields (level fields n) ts = (.error e, rest)) :
    Fails fields .leaf (n + 1) ts e rest := by
  rcases leaf_eq_error hread with ⟨hx, rfl, rfl⟩ | ⟨text, rfl, hc⟩ | ⟨us, rfl, hr⟩ |
    ⟨us, rfl, hr⟩ | ⟨us, s, rfl, hr, hclose, rfl⟩
  · have hfails : Fails fields .leaf (n + 1) ([] ++ ts) _ _ := .outOfPlace .leaf hx
    exact hfails
  · have hfails : Fails fields .leaf (n + 1) ([] ++ .condition text :: rest) _ _ := .condition hc
    exact hfails
  · exact (h .leaf us e rest hr).behind [.not] fun _ _ => .not
  · exact (h .disjunction us e rest hr).behind [.groupOpen] fun _ _ => .body
  · obtain ⟨vs, d, rfl, hd, hder, hstop⟩ := level_sound fields n .disjunction us s rest hr
    exact .outOfPlace (.closeParen hder hd) ⟨hclose, Rule.stops_iff_peek.1 hstop⟩

theorem level_fails (fields : FieldSet) (n : Nat) : (level fields n).FailsAs fields n := by
  induction n with
  | zero =>
    intro rule ts e rest h
    cases rule <;> cases h <;> exact .tooDeep
  | succ n ih =>
    have hsound := level_sound fields (n + 1)
    -- a disjunction starts with a conjunction of the same level, so that comes first
    have hconj : ∀ ts e rest, (level fields (n + 1)).conjunction ts = (.error e, rest) →
        Fails fields .conjunction (n + 1) ts e rest := by
      intro ts e rest h
      rcases chain_eq_error h with hl | ⟨l, us, hl, hr⟩
      · exact (leaf_fails ih hl).behind [] fun _ _ => .ofLeaf
      · obtain ⟨vs, d, rfl, hd, hder, -⟩ := hsound .leaf ts l _ hl
        have hfails := (ih .conjunction us e rest hr).behind (vs ++ [.and]) fun ws x hx => by
          rw [List.append_assoc]
          exact Awaits.and hder hd hx
        rwa [List.append_assoc] at hfails
    intro rule ts e rest h
    cases rule with
    | leaf => exact leaf_fails ih h
    | conjunction => exact hconj ts e rest h
    | disjunction =>
      rcases chain_eq_error h with hl | ⟨l, us, hl, hr⟩
      · exact (hconj ts e rest hl).behind [] fun _ _ => .ofConjunction
      · obtain ⟨vs, d, rfl, hd, hder, -⟩ := hsound .conjunction ts l _ hl
        have hfails := (ih .disjunction us e rest hr).behind (vs ++ [.or]) fun ws x hx => by
          rw [List.append_assoc]
          exact Awaits.or hder hd hx
        rwa [List.append_assoc] at hfails

theorem getLast?_link_ne {link t : Token} (ts : List Token) (hlink : link ≠ t)
    (h : us.getLast? ≠ some t) : (ts ++ link :: us).getLast? ≠ some t := by
  rw [List.getLast?_append, List.getLast?_cons, Option.some_or]
  cases hus : us.getLast? with
  | none => simpa using hlink
  | some u =>
    rw [hus] at h
    exact h

/-- Behind a condition no leaf is awaited. -/
theorem Awaits.getLast?_ne_condition (h : Awaits fields rule n ts .leaf) (text : String) :
    ts.getLast? ≠ some (.condition text) := by
  generalize hx : Awaited.leaf = x at h
  induction h with
  | leaf => simp
  | closeParen _ _ => cases hx
  | ofLeaf _ ih | ofConjunction _ ih => exact ih hx
  | not _ ih | body _ ih => exact getLast?_link_ne [] (by simp) (ih hx)
  | and _ _ _ ih | or _ _ _ ih => exact getLast?_link_ne _ (by simp) (ih hx)

end Grammar

theorem Token.eq_endOfInput {t : Token} (h : t.display = endOfInput.display)
    (hcond : ∀ text, t ≠ .condition text) : t = .endOfInput := by
  cases t with
  | endOfInput => rfl
  | condition text => exact absurd rfl (hcond text)
  | and | or | not | groupOpen | groupClose => exact absurd h (by decide)

theorem Condition.compile_ne_expectedCloseParen (fields : FieldSet) (text near : String) :
    compile fields text ≠ .error (.expectedCloseParen near) := by
  unfold compile make
  grind

namespace Parser

variable {fields : FieldSet} {p : Parser} {ts : List Token} {j : Nat} {e : QueryError}

/-- A new parser in front of the tokens fails because of what stands at `j`: a token that is out of
place, or the end of input. -/
inductive OutOfPlace (fields : FieldSet) (ts : List Token) : Nat → QueryError → Prop where
  /-- The token that was read last is no condition. -/
  | token {t : Token} {j : Nat} {p : Parser} :
      (ofTokens ts).parseOr fields = some (.error (.invalidCondition t.display), p) →
      p.cursor = j + 1 → ts[j]? = some t → (∀ text, t ≠ .condition text) →
      OutOfPlace fields ts j (.invalidCondition t.display)
  /-- The tokens end, and the last one is not a condition that has this error. -/
  | ending {p : Parser} :
      (ofTokens ts).parseOr fields =
        some (.error (.invalidCondition Token.endOfInput.display), p) →
      p.cursor = ts.length →
      (∀ text, ts.getLast? = some (.condition text) →
        Condition.compile fields text ≠ .error (.invalidCondition Token.endOfInput.display)) →
      OutOfPlace fields ts ts.length (.invalidCondition Token.endOfInput.display)
  /-- The token in front of the parser does not close the group. -/
  | close {near : String} {p : Parser} :
      (ofTokens ts).parseOr fields = some (.error (.expectedCloseParen near), p) →
      OutOfPlace fields ts p.cursor (.expectedCloseParen near)

/-- A new parser answers as the reader does, and leaves the same tokens. -/
theorem parseOr_ofTokens (fields : FieldSet) (ts : List Token) :
    ∃ p, (ofTokens ts).parseOr fields = some ((readExpression fields ts).1, p) ∧
      p.cursor ≤ ts.length ∧ ts.drop p.cursor = (readExpression fields ts).2 := by
  obtain ⟨p, hp, hrest, hmoved⟩ := parseOr_follows fields (ofTokens ts) rfl
  have hready := (ready_ofTokens ts).of_moved hmoved
  exact ⟨p, hp, hready.cursor_le, hready.rest_eq.symm.trans hrest⟩

theorem fails_of_parseOr (h : (ofTokens ts).parseOr fields = some (.error e, p)) :
    p.cursor ≤ ts.length ∧
      Grammar.Fails fields .disjunction (maxNesting + 1) ts e (ts.drop p.cursor) := by
  obtain ⟨q, hq, hle, hdrop⟩ := parseOr_ofTokens fields ts
  rw [h] at hq
  obtain ⟨he, rfl⟩ := Prod.mk.inj (Option.some.inj hq)
  refine ⟨hle, Grammar.level_fails fields (maxNesting + 1) .disjunction ts e _ ?_⟩
  exact Prod.ext he.symm hdrop.symm

/-- The four ways in which a new parser fails, and where it stands then. It has read a token that is no
leaf, but not one that fails to close a group. -/
theorem parseOr_error (h : (ofTokens ts).parseOr fields = some (.error e, p)) :
    (∃ j ≤ ts.length, Grammar.Awaits fields .disjunction (maxNesting + 1) (ts.take j) .leaf ∧
      Grammar.Awaited.leaf.Refuses (Token.peek (ts.drop j)) ∧
      e = .invalidCondition (Token.peek (ts.drop j)).display ∧ p.cursor = min (j + 1) ts.length) ∨
    (Grammar.Awaits fields .disjunction (maxNesting + 1) (ts.take p.cursor) .closeParen ∧
      Grammar.Awaited.closeParen.Refuses (Token.peek (ts.drop p.cursor)) ∧
      e = .expectedCloseParen (Token.peek (ts.drop p.cursor)).display) ∨
    (∃ text, ts[p.cursor - 1]? = some (.condition text) ∧
      Condition.compile fields text = .error e) ∨
    ∃ near, e = .nestingTooDeep maxNesting near := by
  obtain ⟨hle, hfails⟩ := fails_of_parseOr h
  generalize hleft : ts.drop p.cursor = left at hfails
  -- how much is left tells where the parser stands
  have hlen := congrArg List.length hleft
  rw [List.length_drop] at hlen
  cases hfails with
  | @outOfPlace us rest x hus hx =>
    rw [List.length_append] at hle hlen
    cases x with
    | leaf =>
      rw [Grammar.Awaited.left, List.length_tail] at hlen
      refine .inl ⟨us.length, ?_⟩
      rw [List.take_left, List.drop_left, List.length_append]
      exact ⟨by omega, hus, hx, rfl, by omega⟩
    | closeParen =>
      rw [Grammar.Awaited.left] at hlen
      have hcursor : p.cursor = us.length := by omega
      refine .inr (.inl ?_)
      rw [hcursor, List.take_left]
      exact ⟨hus, hx, rfl⟩
  | @condition us rest text e hc =>
    rw [List.length_append, List.length_cons] at hle hlen
    have hcursor : p.cursor - 1 = us.length := by omega
    refine .inr (.inr (.inl ⟨text, ?_, hc⟩))
    rw [hcursor, List.getElem?_append_right (Nat.le_refl _), Nat.sub_self, List.getElem?_cons_zero]
  | @tooDeep ts rest near => exact .inr (.inr (.inr ⟨near, rfl⟩))

/-- Every failure has its place, unless a condition does not compile or the levels are used up. -/
theorem exists_outOfPlace (h : (ofTokens ts).parseOr fields = some (.error e, p)) :
    (∃ j, OutOfPlace fields ts j e) ∨
    (∃ text, ts[p.cursor - 1]? = some (.condition text) ∧
      Condition.compile fields text = .error e) ∨
    ∃ near, e = .nestingTooDeep maxNesting near := by
  rcases parseOr_error h with ⟨j, hj, hwait, hx, rfl, hcursor⟩ | ⟨-, -, rfl⟩ | hcond | hdeep
  · rcases Nat.lt_or_eq_of_le hj with hlt | rfl
    · rw [List.drop_eq_getElem_cons hlt] at h hx ⊢
      exact .inl ⟨j, .token h (by omega) (List.getElem?_eq_getElem hlt) hx.2.2⟩
    · rw [List.drop_length] at h ⊢
      rw [List.take_length] at hwait
      refine .inl ⟨ts.length, .ending h (by omega) fun text hlast => ?_⟩
      exact absurd hlast (hwait.getLast?_ne_condition text)
  · exact .inl ⟨p.cursor, .close h⟩
  · exact .inr (.inl hcond)
  · exact .inr (.inr hdeep)

/-- At the place of the failure something else is awaited. -/
theorem OutOfPlace.exists_awaits (hend : .endOfInput ∉ ts) (h : OutOfPlace fields ts j e) :
    ∃ x, Grammar.Awaits fields .disjunction (maxNesting + 1) (ts.take j) x ∧
      x.Refuses (Token.peek (ts.drop j)) ∧ e = x.error (Token.peek (ts.drop j)) := by
  cases h with
  | @token t j p hp hcursor ht hcond =>
    obtain ⟨hlt, htj⟩ := List.getElem?_eq_some_iff.1 ht
    rcases parseOr_error hp with ⟨k, hk, hwait, hx, he, hmin⟩ | ⟨-, -, he⟩ | ⟨text, htext, -⟩ |
      ⟨near, he⟩
    · rcases Nat.lt_or_ge k ts.length with hklt | hkge
      · obtain rfl : k = j := by omega
        exact ⟨.leaf, hwait, hx, he⟩
      · rw [List.drop_eq_nil_of_le hkge] at he
        have heq := Token.eq_endOfInput (QueryError.invalidCondition.inj he) hcond
        exact absurd (List.mem_of_getElem? (heq ▸ ht)) hend
    · cases he
    · rw [hcursor, Nat.add_sub_cancel, ht] at htext
      exact absurd (Option.some.inj htext) (hcond text)
    · cases he
  | @ending p hp hcursor hlast =>
    rcases parseOr_error hp with ⟨k, hk, hwait, hx, he, hmin⟩ | ⟨-, -, he⟩ | ⟨text, htext, hc⟩ |
      ⟨near, he⟩
    · rcases Nat.lt_or_ge k ts.length with hklt | hkge
      · rw [List.drop_eq_getElem_cons hklt] at he hx
        have heq := Token.eq_endOfInput (QueryError.invalidCondition.inj he).symm hx.2.2
        exact absurd (heq ▸ List.getElem_mem hklt) hend
      · obtain rfl : k = ts.length := by omega
        exact ⟨.leaf, hwait, hx, he⟩
    · cases he
    · rw [hcursor, ← List.getLast?_eq_getElem?] at htext
      exact absurd hc (hlast text htext)
    · cases he
  | @close near p hp =>
    rcases parseOr_error hp with ⟨k, hk, hwait, hx, he, hmin⟩ | ⟨hwait, hx, he⟩ | ⟨text, -, hc⟩ |
      ⟨near, he⟩
    · cases he
    · exact ⟨.closeParen, hwait, hx, he⟩
    · exact absurd hc (Condition.compile_ne_expectedCloseParen fields text near)
    · cases he

/-- The tokens in front of the place go on to an expression that is read to its end. -/
theorem OutOfPlace.exists_completion {text : String} {c : Condition}
    (hc : Condition.compile fields text = .ok c) (hend : .endOfInput ∉ ts)
    (h : OutOfPlace fields ts j e) :
    ∃ us s p, (ofTokens (ts.take j ++ us)).parseOr fields = some (.ok s, p) ∧
      p.cursor = (ts.take j ++ us).length := by
  obtain ⟨x, hwait, -, -⟩ := h.exists_awaits hend
  obtain ⟨us, d, s, hd, hder⟩ := hwait.completes hc
  obtain ⟨p, hp, hle, hdrop⟩ := parseOr_ofTokens fields (ts.take j ++ us)
  rw [hder.readExpression_eq (Nat.le_of_lt_succ hd)] at hp hdrop
  exact ⟨us, s, p, hp, Nat.le_antisymm hle (List.drop_eq_nil_iff.1 hdrop)⟩

/-- Behind the token at the place, no tokens make a difference. -/
theorem OutOfPlace.same_error (hend : .endOfInput ∉ ts) (h : OutOfPlace fields ts j e)
    (hj : j < ts.length) (us : List Token) :
    ∃ p, (ofTokens (ts.take (j + 1) ++ us)).parseOr fields = some (.error e, p) := by
  obtain ⟨x, hwait, hx, rfl⟩ := h.exists_awaits hend
  have hpeek : Token.peek (ts.drop j) = Token.peek (ts[j] :: us) := by
    rw [List.drop_eq_getElem_cons hj, Token.peek, Token.peek]
  rw [hpeek] at hx ⊢
  have hread : readExpression fields (ts.take j ++ ts[j] :: us) = _ := hwait.refuses hx
  obtain ⟨p, hp, -⟩ := parseOr_ofTokens fields (ts.take j ++ ts[j] :: us)
  rw [hread] at hp
  rw [List.take_succ_eq_append_getElem hj, List.append_assoc]
  exact ⟨p, hp⟩

/-! ## Main statement -/

/-- **Errors are reported at the earliest token.** A new parser fails at a token out of place, at a
condition that does not compile, or for want of levels. Where a token is out of place, and some condition
compiles, the tokens in front of it go on to an expression that the parser reads to its end; with the
token behind them no more tokens do, the parser has the same error whatever they are. -/
theorem outOfPlace_earliest (hc : ∃ text c, Condition.compile fields text = .ok c)
    (hend : .endOfInput ∉ ts) :
    (∀ e p, (ofTokens ts).parseOr fields = some (.error e, p) →
      (∃ j, OutOfPlace fields ts j e) ∨
      (∃ text, ts[p.cursor - 1]? = some (.condition text) ∧
        Condition.compile fields text = .error e) ∨
      ∃ near, e = .nestingTooDeep maxNesting near) ∧
    ∀ j e, OutOfPlace fields ts j e →
      (∃ us s p, (ofTokens (ts.take j ++ us)).parseOr fields = some (.ok s, p) ∧
        p.cursor = (ts.take j ++ us).length) ∧
      (j < ts.length → ∀ us, ∃ p,
        (ofTokens (ts.take (j + 1) ++ us)).parseOr fields = some (.error e, p)) := by
  obtain ⟨text, c, hc⟩ := hc
  refine ⟨fun e p => exists_outOfPlace, fun j e h => ⟨h.exists_completion hc hend, ?_⟩⟩
  intro hj us
  exact h.same_error hend hj us

/-- The second condition in a group stands where the group could have been closed. -/
theorem outOfPlace_earliest_in_group :
    OutOfPlace (FieldSet.ofList ["a"])
        [.not, .groupOpen, .condition "[a=1]", .condition "[a=2]", .groupClose] 3
        (.expectedCloseParen "[a=2]") ∧
      (∃ us s p, (ofTokens ([.not, .groupOpen, .condition "[a=1]"] ++ us)).parseOr
          (FieldSet.ofList ["a"]) = some (.ok s, p) ∧
        p.cursor = ([.not, .groupOpen, .condition "[a=1]"] ++ us).length) ∧
      ∀ us, ∃ p, (ofTokens ([.not, .groupOpen, .condition "[a=1]", .condition "[a=2]"] ++ us)).parseOr
        (FieldSet.ofList ["a"]) = some (.error (.expectedCloseParen "[a=2]"), p) := by
  let tokens : List Token :=
    [.not, .groupOpen, .condition "[a=1]", .condition "[a=2]", .groupClose]
  have hrun : (ofTokens tokens).parseOr (FieldSet.ofList ["a"]) =
      some (.error (.expectedCloseParen "[a=2]"), ⟨tokens, 3, 0⟩) := rfl
  have hplace : OutOfPlace (FieldSet.ofList ["a"]) tokens 3 _ := .close hrun
  have hc : ∃ c, Condition.compile (FieldSet.ofList ["a"]) "[a=1]" = .ok c := ⟨_, rfl⟩
  have hend : .endOfInput ∉ tokens := by decide
  obtain ⟨-, hearliest⟩ := outOfPlace_earliest ⟨_, hc⟩ hend
  obtain ⟨hfront, hsame⟩ := hearliest 3 _ hplace
  exact ⟨hplace, hfront, hsame (by decide)⟩

end Parser

end SlotQuery
