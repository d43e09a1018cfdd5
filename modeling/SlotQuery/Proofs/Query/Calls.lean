import SlotQuery.Proofs.Query.Derivation
import SlotQuery.Query.Parser
import SlotQuery.Query.SelectorSet

/-!
# Calls of a parser

A rule of `Parser` does to the tokens in front of it what the reader of its level does to a list of
tokens (`rules_follow`). All that it changes of the parser is the cursor, which moves on within the
tokens; the level is what it was, after an error too (`Moved`). So every call is answered as if the
parser were new in front of the tokens that are left. Main statement: `Parser.run_calls`.
-/

namespace SlotQuery

/-! ## Readers, whatever they find -/

theorem Token.exists_cons_of_peek {t : Token} {ts : List Token} (h : Token.peek ts = t)
    (ht : t ≠ .endOfInput) : ∃ us, ts = t :: us := by
  cases ts with
  | nil => exact absurd h.symm ht
  | cons t' us => exact ⟨us, by rw [← h, Token.peek]⟩

namespace Grammar

theorem leaf_not (fields : FieldSet) (below : Level) (ts : List Token) :
    leaf fields below (.not :: ts) = ((below.leaf ts).1.map .not, (below.leaf ts).2) := by
  rw [leaf]
  cases below.leaf ts with
  | mk result rest => cases result <;> rfl

/-- Behind the body of a group, what does not close it is refused. -/
theorem group_refuses (fields : FieldSet) {below : Level} {ts rest : List Token}
    {s : Selector} (hbody : below.disjunction ts = (.ok s, rest))
    (h : Token.peek rest ≠ .groupClose) :
    leaf fields below (.groupOpen :: ts) =
      (.error (.expectedCloseParen (Token.peek rest).display), rest) := by
  cases rest with
  | nil => simp [leaf, hbody]
  | cons t rest =>
    have ht : t ≠ .groupClose := h
    simp [leaf, hbody, ht]

/-- A link behind the left side calls for a right one. -/
theorem chain_of_link {link : Token} {join : Selector → Selector → Selector} {left right : Reader}
    {ts us : List Token} {l : Selector} (hl : left ts = (.ok l, link :: us)) :
    chain link join left right ts = ((right us).1.map (join l), (right us).2) := by
  simp only [chain, hl, if_true]
  cases right us with
  | mk result rest => cases result <;> rfl

end Grammar

namespace Parser

variable {fields : FieldSet} {p q r : Parser} {ts us : List Token} {t : Token} {d n : Nat}

/-! ## What a rule may change -/

/-- Nothing but the cursor has changed, and it has moved on within the tokens. -/
structure Moved (p q : Parser) : Prop where
  tokens_eq : q.tokens = p.tokens
  depth_eq : q.depth = p.depth
  cursor_le : p.cursor ≤ q.cursor
  cursor_le_length : p.cursor ≤ p.tokens.length → q.cursor ≤ q.tokens.length

theorem Moved.refl (p : Parser) : Moved p p := ⟨rfl, rfl, Nat.le_refl _, id⟩

/-- Moves add up. -/
theorem Moved.trans (h : Moved p q) (h' : Moved q r) : Moved p r where
  tokens_eq := h'.tokens_eq.trans h.tokens_eq
  depth_eq := h'.depth_eq.trans h.depth_eq
  cursor_le := Nat.le_trans h.cursor_le h'.cursor_le
  cursor_le_length hp := h'.cursor_le_length (h.cursor_le_length hp)

theorem moved_advance (p : Parser) : Moved p p.advance := by
  unfold advance
  split
  · next h => exact ⟨rfl, rfl, Nat.le_succ _, fun _ => h⟩
  · exact .refl p

/-- The tokens that are left tell how far the parser has come. -/
theorem Moved.cursor_lt (h : Moved p q) (hlen : q.rest.length < p.rest.length) :
    p.cursor < q.cursor := by
  rw [rest, rest, h.tokens_eq, List.length_drop, List.length_drop] at hlen
  omega

/-! ## Reading one token -/

/-- A token that is there is taken. -/
theorem eat?_of_rest (hp : p.rest = t :: us) : p.eat? t = some p.advance := by
  rw [eat?, if_pos (by rw [peek_eq, hp]; rfl)]

theorem eat?_of_ne (h : Token.peek p.rest ≠ t) : p.eat? t = none := by
  rw [eat?, if_neg (by rwa [peek_eq])]

theorem rest_advance_of_rest (hp : p.rest = t :: us) : p.advance.rest = us := by
  rw [rest_advance, hp, List.tail_cons]

/-! ## Rules and readers -/

/-- On the level `d` the rule reads what the reader reads, and leaves the same tokens. -/
def Follows (d : Nat) (rule : Parse) (reader : Reader) : Prop :=
  ∀ p : Parser, p.depth = d →
    ∃ q, rule p = some ((reader p.rest).1, q) ∧ q.rest = (reader p.rest).2 ∧ Moved p q

/-- A rule is called one level further down, or fails like a reader below the deepest level. -/
theorem nested_follows {rule : Parse} {reader : Reader}
    (hdeep : maxNesting ≤ d → reader = Grammar.tooDeep)
    (h : d < maxNesting → Follows (d + 1) rule reader) : Follows d (nested rule) reader := by
  rintro p rfl
  by_cases hd : maxNesting ≤ p.depth
  · refine ⟨p, ?_, ?_, .refl p⟩
    · rw [nested, if_pos hd, hdeep hd, Grammar.tooDeep, peek_eq]
    · rw [hdeep hd, Grammar.tooDeep]
  · obtain ⟨q, hq, hrest, hmoved⟩ :=
      h (Nat.lt_of_not_le hd) { p with depth := p.depth + 1 } rfl
    refine ⟨{ q with depth := q.depth - 1 }, ?_, hrest, ?_⟩
    · rw [nested, if_neg hd, hq]
      rfl
    · -- the level goes up by one for the call and down by one behind it
      have hdepth : q.depth = p.depth + 1 := hmoved.depth_eq
      exact ⟨hmoved.tokens_eq, by simp [hdepth], hmoved.cursor_le, hmoved.cursor_le_length⟩

/-- Behind the body of a group, the parser reads what the reader of the group reads. -/
theorem closeGroup_eq (fields : FieldSet) {below : Grammar.Level} {body : Except QueryError Selector}
    (h : below.disjunction us = (body, q.rest)) :
    ∃ r, closeGroup body q = ((Grammar.leaf fields below (.groupOpen :: us)).1, r) ∧
      r.rest = (Grammar.leaf fields below (.groupOpen :: us)).2 ∧ Moved q r := by
  cases body with
  | error e =>
    refine ⟨q, ?_, ?_, .refl q⟩
    · simp [closeGroup, Grammar.leaf, h]
    · simp [Grammar.leaf, h]
  | ok s =>
    by_cases hclose : Token.peek q.rest = .groupClose
    · obtain ⟨vs, hq⟩ := Token.exists_cons_of_peek hclose (by decide)
      refine ⟨q.advance, ?_, ?_, moved_advance q⟩
      · simp [closeGroup, eat?_of_rest hq, Grammar.leaf, h, hq]
      · simp [rest_advance_of_rest hq, Grammar.leaf, h, hq]
    · have hleaf := Grammar.group_refuses fields h hclose
      refine ⟨q, ?_, ?_, .refl q⟩
      · simp [closeGroup, eat?_of_ne hclose, hleaf, peek_eq]
      · rw [hleaf]

theorem leaf_follows {called : Rules} {below : Grammar.Level}
    (hleaf : Follows d (nested called.leaf) below.leaf)
    (hgroup : Follows d (nested called.disjunction) below.disjunction) :
    Follows d (leaf fields called) (Grammar.leaf fields below) := by
  rintro p rfl
  have hdepth : p.advance.depth = p.depth := (moved_advance p).depth_eq
  have hpeek := p.peek_eq
  have hrest := p.rest_advance
  cases hp : p.rest with
  | nil =>
    rw [hp] at hpeek hrest
    refine ⟨p.advance, ?_, hrest, moved_advance p⟩
    simp [leaf, eat?, hpeek, Token.peek, Grammar.leaf]
  | cons t us =>
    rw [hp] at hpeek hrest
    rw [Token.peek] at hpeek
    rw [List.tail_cons] at hrest
    cases t with
    | not =>
      obtain ⟨q, hq, hqrest, hmoved⟩ := hleaf p.advance hdepth
      rw [hrest] at hq hqrest
      refine ⟨q, ?_, ?_, (moved_advance p).trans hmoved⟩
      · simp [leaf, eat?, hpeek, hq, Grammar.leaf_not]
      · rw [hqrest, Grammar.leaf_not]
    | groupOpen =>
      obtain ⟨q, hq, hqrest, hmoved⟩ := hgroup p.advance hdepth
      rw [hrest] at hq hqrest
      obtain ⟨r, hr, hrrest, hclosed⟩ := closeGroup_eq fields (Prod.ext rfl hqrest.symm)
      refine ⟨r, ?_, hrrest, ((moved_advance p).trans hmoved).trans hclosed⟩
      simp [leaf, eat?, hpeek, hq, hr]
    | condition text =>
      refine ⟨p.advance, ?_, hrest, moved_advance p⟩
      simp [leaf, eat?, hpeek, Grammar.leaf]
    | and | or | groupClose | endOfInput =>
      refine ⟨p.advance, ?_, hrest, moved_advance p⟩
      simp [leaf, eat?, hpeek, Grammar.leaf]

/-- A chain with a cursor does what the reader of chains does. -/
theorem chain_follows {link : Token} {join : Selector → Selector → Selector} {left right : Parse}
    {leftReader rightReader : Reader} (hlink : link ≠ .endOfInput) (hleft : Follows d left leftReader)
    (hright : Follows d (nested right) rightReader) :
    Follows d (chain link join left right) (Grammar.chain link join leftReader rightReader) := by
  intro p hp
  obtain ⟨q, hq, hqrest, hmoved⟩ := hleft p hp
  cases hread : leftReader p.rest with
  | mk result rest =>
    rw [hread] at hq hqrest
    obtain rfl : q.rest = rest := hqrest
    cases result with
    | error e =>
      have hchain : Grammar.chain link join leftReader rightReader p.rest = (.error e, q.rest) := by
        simp [Grammar.chain, hread]
      exact ⟨q, by simp [chain, hq, hchain], by rw [hchain], hmoved⟩
    | ok l =>
      by_cases hpeek : Token.peek q.rest = link
      · obtain ⟨us, hus⟩ := Token.exists_cons_of_peek hpeek hlink
        have hchain : Grammar.chain link join leftReader rightReader p.rest = _ :=
          Grammar.chain_of_link (hread.trans (by rw [hus]))
        have hdepth : q.advance.depth = d :=
          (moved_advance q).depth_eq.trans (hmoved.depth_eq.trans hp)
        obtain ⟨r, hr, hrrest, hmoved'⟩ := hright q.advance hdepth
        rw [rest_advance_of_rest hus] at hr hrrest
        refine ⟨r, ?_, ?_, hmoved.trans ((moved_advance q).trans hmoved')⟩
        · simp [chain, hq, eat?_of_rest hus, hr, hchain]
        · rw [hrrest, hchain]
      · have hchain : Grammar.chain link join leftReader rightReader p.rest = (.ok l, q.rest) := by
          refine Grammar.chain_stop hread fun t ht heq => hpeek ?_
          obtain ⟨us, hus⟩ := List.head?_eq_some_iff.1 ht
          rw [hus, Token.peek, heq]
        exact ⟨q, by simp [chain, hq, eat?_of_ne hpeek, hchain], by rw [hchain], hmoved⟩

/-- The rules follow the readers of the levels that are left, if they may call each other deeply
enough. The induction is on how deeply they may; a call takes one of the calls and one level. -/
theorem rules_follow (hd : d ≤ maxNesting) (hn : maxNesting < n + d) :
    Follows d (rules fields n).disjunction
        (Grammar.level fields (maxNesting - d + 1)).disjunction ∧
      Follows d (rules fields n).conjunction
        (Grammar.level fields (maxNesting - d + 1)).conjunction ∧
      Follows d (rules fields n).leaf (Grammar.level fields (maxNesting - d + 1)).leaf := by
  induction n generalizing d with
  | zero => omega
  | succ n ih =>
    have hdeep (h : maxNesting ≤ d) : Grammar.level fields (maxNesting - d) =
        ⟨Grammar.tooDeep, Grammar.tooDeep, Grammar.tooDeep⟩ := by
      rw [Nat.sub_eq_zero_of_le h, Grammar.level]
    have hcalled (h : d < maxNesting) := @ih (d + 1) h (by omega)
    have hlevel (h : d < maxNesting) : maxNesting - (d + 1) + 1 = maxNesting - d := by omega
    have hdisjunction : Follows d (nested (rules fields n).disjunction)
        (Grammar.level fields (maxNesting - d)).disjunction :=
      nested_follows (fun h => by rw [hdeep h]) fun h => hlevel h ▸ (hcalled h).1
    have hleaf : Follows d (leaf fields (rules fields n))
        (Grammar.leaf fields (Grammar.level fields (maxNesting - d))) :=
      leaf_follows (nested_follows (fun h => by rw [hdeep h]) fun h => hlevel h ▸ (hcalled h).2.2)
        hdisjunction
    have hconjunction : Follows d
        (chain .and .and (leaf fields (rules fields n)) (rules fields n).conjunction)
        (Grammar.level fields (maxNesting - d + 1)).conjunction :=
      chain_follows (by decide) hleaf
        (nested_follows (fun h => by rw [hdeep h]) fun h => hlevel h ▸ (hcalled h).2.1)
    exact ⟨chain_follows (by decide) hconjunction hdisjunction, hconjunction, hleaf⟩

/-- The parser with its cursor reads what the reader reads. -/
theorem parseOr_follows (fields : FieldSet) :
    Follows 0 (parseOr fields) (readExpression fields) :=
  (rules_follow (Nat.zero_le _) (Nat.lt_succ_self _)).1

/-! ## Calls -/

/-- The readers' answer to a call in front of the tokens, and the tokens that they leave. -/
def Call.answer (fields : FieldSet) (ts : List Token) : Call → Answer × List Token
  | parseOr => ((readExpression fields ts).map Answer.read id)
  | atEnd =>
    match Token.eat? .endOfInput ts with
    | some ts => (.ended true, ts)
    | none => (.ended false, ts)

theorem atEnd_of_eq (h : Token.peek p.rest = .endOfInput) : p.atEnd = (true, p.advance) := by
  rw [atEnd, eat?, if_pos (by rwa [peek_eq])]

theorem atEnd_of_ne (h : Token.peek p.rest ≠ .endOfInput) : p.atEnd = (false, p) := by
  rw [atEnd, eat?_of_ne h]

theorem readExpression_length_lt (fields : FieldSet) (h : ts ≠ []) :
    (readExpression fields ts).2.length < ts.length := by
  obtain ⟨t, us, rfl⟩ := List.exists_cons_of_ne_nil h
  exact Nat.lt_succ_of_le (readExpression_advances fields t us)

/-- A call is answered as the readers answer it, and leaves the tokens that they leave. -/
theorem call_eq (fields : FieldSet) (c : Call) (hp : p.depth = 0) :
    ∃ q, p.call fields c = some ((c.answer fields p.rest).1, q) ∧
      q.rest = (c.answer fields p.rest).2 ∧ Moved p q := by
  cases c with
  | parseOr =>
    obtain ⟨q, hq, hrest, hmoved⟩ := parseOr_follows fields p hp
    exact ⟨q, by rw [call, hq]; rfl, hrest, hmoved⟩
  | atEnd =>
    by_cases h : Token.peek p.rest = .endOfInput
    · refine ⟨p.advance, ?_, ?_, moved_advance p⟩
      · simp [call, atEnd_of_eq h, Call.answer, Token.eat?, h]
      · simp [rest_advance, Call.answer, Token.eat?, h]
    · refine ⟨p, ?_, ?_, .refl p⟩
      · simp [call, atEnd_of_ne h, Call.answer, Token.eat?, h]
      · simp [Call.answer, Token.eat?, h]

/-- Between calls: the parser has all its tokens, its level is the outermost, and it is not past the
end. -/
structure Ready (ts : List Token) (p : Parser) : Prop where
  tokens_eq : p.tokens = ts
  depth_eq : p.depth = 0
  cursor_le : p.cursor ≤ ts.length

theorem ready_ofTokens (ts : List Token) : Ready ts (ofTokens ts) := ⟨rfl, rfl, Nat.zero_le _⟩

/-- A parser that moved on is ready for more. -/
theorem Ready.of_moved (h : Ready ts p) (hmoved : Moved p q) : Ready ts q where
  tokens_eq := hmoved.tokens_eq.trans h.tokens_eq
  depth_eq := hmoved.depth_eq.trans h.depth_eq
  cursor_le := by
    have hlen := hmoved.cursor_le_length (h.tokens_eq ▸ h.cursor_le)
    rwa [hmoved.tokens_eq, h.tokens_eq] at hlen

theorem Ready.rest_eq (h : Ready ts p) : p.rest = ts.drop p.cursor := by rw [rest, h.tokens_eq]

/-- A call between calls: it is answered, moves the parser on, past a token at least where an expression
is asked for and there is a token, and does what it does to a new parser in front of the tokens that
are left. -/
theorem call_of_ready (fields : FieldSet) (c : Call) (h : Ready ts p) :
    ∃ a q, p.call fields c = some (a, q) ∧ Ready ts q ∧ p.cursor ≤ q.cursor ∧
      (c = .parseOr → p.cursor < ts.length → p.cursor < q.cursor) ∧
      ∃ q', (ofTokens (ts.drop p.cursor)).call fields c = some (a, q') ∧
        q.cursor = p.cursor + q'.cursor := by
  obtain ⟨q, hq, hrest, hmoved⟩ := call_eq fields c h.depth_eq
  have hready := h.of_moved hmoved
  refine ⟨_, q, hq, hready, hmoved.cursor_le, ?_, ?_⟩
  · rintro rfl hlt
    refine hmoved.cursor_lt ?_
    rw [hrest]
    refine readExpression_length_lt fields fun hnil => ?_
    rw [h.rest_eq, List.drop_eq_nil_iff] at hnil
    omega
  · obtain ⟨q', hq', hrest', hmoved'⟩ := @call_eq (ofTokens (ts.drop p.cursor)) fields c rfl
    have hready' := (ready_ofTokens _).of_moved hmoved'
    have hnew : (ofTokens (ts.drop p.cursor)).rest = p.rest := h.rest_eq.symm
    rw [hnew] at hq' hrest'
    refine ⟨q', hq', ?_⟩
    -- both parsers leave the same tokens, so they come equally far
    have hlen := congrArg List.length (hrest.trans hrest'.symm)
    rw [hready.rest_eq, hready'.rest_eq, List.length_drop, List.length_drop, List.length_drop] at hlen
    have hle := hready.cursor_le
    have hle' := hready'.cursor_le
    rw [List.length_drop] at hle'
    have := h.cursor_le
    omega

/-- Calls in two parts are run one part after the other. -/
theorem run_append (fields : FieldSet) (p : Parser) (calls more : List Call) :
    p.run fields (calls ++ more) = do
      let (answers, q) ← p.run fields calls
      let (answers', q) ← q.run fields more
      return (answers ++ answers', q) := by
  induction calls generalizing p with
  | nil => cases h : p.run fields more <;> simp [run, h]
  | cons c calls ih => simp [run, ih, Option.bind_assoc]

/-- Any calls are answered, errors among the answers or not, and leave a parser that is ready. -/
theorem run_of_ready (fields : FieldSet) (calls : List Call) (h : Ready ts p) :
    ∃ answers q, p.run fields calls = some (answers, q) ∧ Ready ts q := by
  induction calls generalizing p with
  | nil => exact ⟨[], p, rfl, h⟩
  | cons c calls ih =>
    obtain ⟨a, q, hq, hready, -⟩ := call_of_ready fields c h
    obtain ⟨answers, r, hr, hready'⟩ := ih hready
    exact ⟨a :: answers, r, by simp [run, hq, hr], hready'⟩

/-- Reading all expressions takes no more of them than there are tokens. -/
theorem parseAll_eq (fields : FieldSet) (hp : p.depth = 0) (hn : p.rest.length ≤ n) :
    parseAll fields n p = some (SelectorSet.readAll fields p.rest) := by
  induction n generalizing p with
  | zero =>
    have hend : Token.peek p.rest = .endOfInput := by
      rw [List.eq_nil_of_length_eq_zero (Nat.le_zero.1 hn), Token.peek]
    simp [parseAll, atEnd_of_eq hend, SelectorSet.readAll_of_end hend]
  | succ n ih =>
    by_cases hend : Token.peek p.rest = .endOfInput
    · simp [parseAll, atEnd_of_eq hend, SelectorSet.readAll_of_end hend]
    · have hne : p.rest ≠ [] := fun hnil => hend (by rw [hnil, Token.peek])
      have hlt := readExpression_length_lt fields hne
      obtain ⟨q, hq, hrest, hmoved⟩ := parseOr_follows fields p hp
      cases hread : readExpression fields p.rest with
      | mk result rest =>
        rw [hread] at hq hrest hlt
        have hlen : rest.length ≤ n := Nat.le_of_lt_succ (Nat.lt_of_lt_of_le hlt hn)
        cases result with
        | error e => simp [parseAll, atEnd_of_ne hend, hq, SelectorSet.readAll_of_error hend hread]
        | ok s =>
          subst hrest
          have hall := ih (hmoved.depth_eq.trans hp) hlen
          simp [parseAll, atEnd_of_ne hend, hq, hall, SelectorSet.readAll_of_ok hread]

/-! ## Main statement -/

/-- The parser keeps nothing but its place. Any calls, errors among their answers or not, leave it with
all its tokens, on the outermost level and no further than the end. The next call is answered too. It
never moves back, it takes a token if it asks for an expression and one is left, and it does what it
does to a new parser in front of the tokens that are left. So reading all expressions ends after no more
of them than there are tokens. -/
theorem run_calls (fields : FieldSet) (ts : List Token) (calls : List Call) :
    (∃ answers p, (ofTokens ts).run fields calls = some (answers, p) ∧ Ready ts p ∧
      ∀ c, ∃ a q, (ofTokens ts).run fields (calls ++ [c]) = some (answers ++ [a], q) ∧
        p.call fields c = some (a, q) ∧ Ready ts q ∧ p.cursor ≤ q.cursor ∧
        (c = .parseOr → p.cursor < ts.length → p.cursor < q.cursor) ∧
        ∃ q', (ofTokens (ts.drop p.cursor)).call fields c = some (a, q') ∧
          q.cursor = p.cursor + q'.cursor) ∧
      parseAll fields ts.length (ofTokens ts) = some (SelectorSet.readAll fields ts) := by
  obtain ⟨answers, p, hrun, hready⟩ := run_of_ready fields calls (ready_ofTokens ts)
  refine ⟨⟨answers, p, hrun, hready, fun c => ?_⟩, ?_⟩
  · obtain ⟨a, q, hq, hnext⟩ := call_of_ready fields c hready
    exact ⟨a, q, by simp [run_append, hrun, run, hq], hq, hnext⟩
  · exact parseAll_eq fields rfl (Nat.le_refl _)

/-- The error inside the group leaves a parser that is on the outermost level, and goes on behind the
token at which it failed. -/
theorem run_calls_error_in_group :
    ∃ p a q, (ofTokens [.groupOpen, .groupClose, .condition "[a=1]"]).run (FieldSet.ofList ["a"])
        [.parseOr] = some ([.read (.error (.invalidCondition ")"))], p) ∧
      p.cursor = 2 ∧ p.depth = 0 ∧ p.call (FieldSet.ofList ["a"]) .parseOr = some (a, q) ∧
      2 < q.cursor ∧
      ∃ q', (ofTokens [.condition "[a=1]"]).call (FieldSet.ofList ["a"]) .parseOr = some (a, q') := by
  have hrun : (ofTokens [.groupOpen, .groupClose, .condition "[a=1]"]).run (FieldSet.ofList ["a"])
      [.parseOr] = some ([.read (.error (.invalidCondition ")"))],
        ⟨[.groupOpen, .groupClose, .condition "[a=1]"], 2, 0⟩) := rfl
  obtain ⟨⟨answers, p, hp, -, hnext⟩, -⟩ := run_calls (FieldSet.ofList ["a"])
    [.groupOpen, .groupClose, .condition "[a=1]"] [.parseOr]
  cases hrun.symm.trans hp
  obtain ⟨a, q, -, hcall, -, -, hlt, q', hnew, -⟩ := hnext .parseOr
  exact ⟨_, a, q, hrun, rfl, rfl, hcall, hlt rfl (by decide), q', hnew⟩

end Parser

end SlotQuery
