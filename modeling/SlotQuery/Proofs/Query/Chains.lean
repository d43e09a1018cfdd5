import Mathlib.Tactic.Choose
import SlotQuery.Proofs.Query.Derivation

/-!
# Flat chains

A flat chain is made of leaves in rows: `AND` joins the leaves of a row, `OR` joins the rows. The grammar
nests each link to the right, so a chain needs the more levels the longer it is. Whatever its tree, the
selector accepts the candidates that all leaves of one row accept. Main statement:
`readExpression_chain`.

Only the levels can run out: the `j`-th leaf of the `i`-th row lies `i + j` levels further down than it
does alone.
-/

namespace SlotQuery

namespace Grammar

variable {fields : FieldSet}

/-! ## Leaves -/

/-- A condition, a negated leaf, or an expression in parentheses. -/
inductive IsLeaf (fields : FieldSet) : List Token → Prop where
  | condition {text : String} : IsLeaf fields [.condition text]
  | not {ts : List Token} : IsLeaf fields ts → IsLeaf fields (.not :: ts)
  | group {ts : List Token} {s : Selector} : readExpression fields ts = (.ok s, []) →
      IsLeaf fields (.groupOpen :: (ts ++ [.groupClose]))

/-- A leaf that is read to its end when nothing stands around it. -/
structure Leaf (fields : FieldSet) where
  tokens : List Token
  selector : Selector
  isLeaf : IsLeaf fields tokens
  read : readExpression fields tokens = (.ok selector, [])

/-- No proper front of a leaf derives as one. -/
theorem IsLeaf.rest_eq_nil {ts us rest : List Token} {d : Nat} {s : Selector}
    (h : IsLeaf fields ts) (hder : Derives fields .leaf d us s) (hts : ts = us ++ rest) :
    rest = [] := by
  induction h generalizing d us s with
  | condition =>
    cases hder <;> cases hts
    rfl
  | not _ ih =>
    cases hder <;> cases hts
    exact ih ‹_› rfl
  | @group ts r hbody =>
    cases hder with
    | condition _ => cases hts
    | not _ => cases hts
    | @group e us _ hus =>
      -- the text of the body ends at the first parenthesis that the body leaves
      obtain ⟨e', -, hder⟩ := readExpression_eq_nil_iff.1 hbody
      have hstop (vs : List Token) : Rule.disjunction.Stops (.groupClose :: vs) := by
        simp [Rule.Stops, Rule.links]
      have hsplit : ts ++ [.groupClose] = us ++ .groupClose :: rest := by simpa using hts
      obtain ⟨-, hrest⟩ := hder.append_inj hus (hstop []) (hstop rest) hsplit
      exact (List.cons.inj hrest).2.symm

/-- An expression that is a leaf has no link. -/
theorem IsLeaf.derives {ts : List Token} {d : Nat} {s : Selector} (h : IsLeaf fields ts)
    (hder : Derives fields .disjunction d ts s) : Derives fields .leaf d ts s := by
  cases hder with
  | ofConjunction hconj =>
    cases hconj with
    | ofLeaf hleaf => exact hleaf
    | and hleft _ => cases h.rest_eq_nil hleft rfl
  | or hleft _ =>
    cases hleft with
    | ofLeaf hleaf => cases h.rest_eq_nil hleaf rfl
    | and hleaf _ => cases h.rest_eq_nil hleaf (List.append_assoc _ _ _)

theorem Leaf.exists_derives (leaf : Leaf fields) :
    ∃ d ≤ maxNesting, Derives fields .leaf d leaf.tokens leaf.selector := by
  obtain ⟨d, hd, hder⟩ := readExpression_eq_nil_iff.1 leaf.read
  exact ⟨d, hd, leaf.isLeaf.derives hder⟩

/-! ## Links in a row -/

/-- The level of the deepest leaf in a row, told from the levels that its texts reach alone: each link puts
what is behind it one level down. -/
def chainDepth : List Nat → Nat
  | [] => 0
  | [d] => d
  | d :: ds => max d (chainDepth ds + 1)

/-- Each place in a row costs a level. -/
theorem add_chainDepth_le_iff {α : Type} (depth : α → Nat) {items : List α} (hne : items ≠ [])
    (k m : Nat) : k + chainDepth (items.map depth) ≤ m ↔
      ∀ j a, items[j]? = some a → k + j + depth a ≤ m := by
  induction items generalizing k with
  | nil => contradiction
  | cons a items ih =>
    -- the first text stays on level `k`, the others are a row on the next level
    have hcons : (∀ j b, (a :: items)[j]? = some b → k + j + depth b ≤ m) ↔
        k + depth a ≤ m ∧ ∀ j b, items[j]? = some b → k + 1 + j + depth b ≤ m := by
      refine ⟨fun h => ⟨h 0 a rfl, fun j b hb => ?_⟩, fun ⟨ha, h⟩ j b hb => ?_⟩
      · have hj := h (j + 1) b hb
        omega
      · cases j with
        | zero =>
          cases hb
          exact ha
        | succ j =>
          have hj := h j b hb
          omega
    rw [hcons]
    cases items with
    | nil => simp [chainDepth]
    | cons b items =>
      rw [← ih (List.cons_ne_nil b items) (k + 1), List.map_cons, List.map_cons, chainDepth]
      · omega
      · exact List.cons_ne_nil _ _

/-- A token with which a text of the outer rule starts again behind one of the inner rule, and what the
joined selectors answer together. -/
structure Link (fields : FieldSet) (inner outer : Rule) where
  token : Token
  join : Selector → Selector → Selector
  combine : List Bool → Bool
  single {d : Nat} {ts : List Token} {s : Selector} : Derives fields inner d ts s →
    Derives fields outer d ts s
  link {d e : Nat} {ts us : List Token} {l r : Selector} : Derives fields inner d ts l →
    Derives fields outer e us r →
    Derives fields outer (max d (e + 1)) (ts ++ token :: us) (join l r)
  combine_single (b : Bool) : combine [b] = b
  accepts_join {l r : Selector} {candidate : Attributes} {bs : List Bool} :
    r.accepts candidate = combine bs →
    (join l r).accepts candidate = combine (l.accepts candidate :: bs)

/-- `AND` joins leaves. -/
def andLink (fields : FieldSet) : Link fields .leaf .conjunction where
  token := .and
  join := .and
  combine bs := bs.all id
  single := .ofLeaf
  link := .and
  combine_single b := by simp
  accepts_join h := by simp [Selector.accepts, h]

/-- `OR` joins conjunctions. -/
def orLink (fields : FieldSet) : Link fields .conjunction .disjunction where
  token := .or
  join := .or
  combine bs := bs.any id
  single := .ofConjunction
  link := .or
  combine_single b := by simp
  accepts_join h := by simp [Selector.accepts, h]

theorem Link.exists_derives {α : Type} {inner outer : Rule} (link : Link fields inner outer)
    {tokens : α → List Token} {depth : α → Nat} {accepts : α → Attributes → Bool} {items : List α}
    (hne : items ≠ [])
    (h : ∀ a ∈ items, ∃ s, Derives fields inner (depth a) (tokens a) s ∧
      ∀ candidate, s.accepts candidate = accepts a candidate) :
    ∃ s, Derives fields outer (chainDepth (items.map depth))
        ([link.token].intercalate (items.map tokens)) s ∧
      ∀ candidate, s.accepts candidate = link.combine (items.map (accepts · candidate)) := by
  induction items with
  | nil => contradiction
  | cons a items ih =>
    obtain ⟨l, hl, hleft⟩ := h a List.mem_cons_self
    cases items with
    | nil =>
      refine ⟨l, by simpa [chainDepth] using link.single hl, fun candidate => ?_⟩
      rw [hleft, List.map_singleton, link.combine_single]
    | cons b items =>
      obtain ⟨r, hr, hright⟩ := ih (List.cons_ne_nil b items)
        fun a ha => h a (List.mem_cons_of_mem _ ha)
      refine ⟨link.join l r, by simpa [chainDepth] using link.link hl hr, fun candidate => ?_⟩
      rw [link.accepts_join (hright candidate), hleft]
      rfl

/-! ## Rows of leaves -/

/-- The leaves of a row with `AND` between them. -/
def rowTokens (row : List (Leaf fields)) : List Token :=
  [Token.and].intercalate (row.map Leaf.tokens)

/-- The rows with `OR` between them. -/
def chainTokens (rows : List (List (Leaf fields))) : List Token :=
  [Token.or].intercalate (rows.map rowTokens)

/-- The tokens of a flat chain derive a disjunction of conjunctions. -/
theorem exists_derives_chainTokens {depth : Leaf fields → Nat}
    (hdepth : ∀ leaf, Derives fields .leaf (depth leaf) leaf.tokens leaf.selector)
    {rows : List (List (Leaf fields))} (hrows : rows ≠ []) (hrow : ∀ row ∈ rows, row ≠ []) :
    ∃ s, Derives fields .disjunction (chainDepth (rows.map fun row => chainDepth (row.map depth)))
        (chainTokens rows) s ∧
      ∀ candidate, s.accepts candidate = true ↔
        ∃ row ∈ rows, ∀ leaf ∈ row, leaf.selector.accepts candidate = true := by
  have hand : ∀ row ∈ rows, ∃ s,
      Derives fields .conjunction (chainDepth (row.map depth)) (rowTokens row) s ∧
        ∀ candidate, s.accepts candidate = row.all (·.selector.accepts candidate) := by
    intro row hmem
    obtain ⟨s, hder, hs⟩ := (andLink fields).exists_derives (hrow row hmem)
      (fun leaf _ => ⟨leaf.selector, hdepth leaf, fun _ => rfl⟩)
    exact ⟨s, hder, fun candidate => by simp [hs, andLink, List.all_map]⟩
  obtain ⟨s, hder, hs⟩ := (orLink fields).exists_derives hrows hand
  refine ⟨s, hder, fun candidate => ?_⟩
  simp [hs, orLink]

/-- How deep a chain is, is a matter of each leaf and the links in front of it. -/
theorem chainDepth_le_iff {depth : Leaf fields → Nat}
    (hdepth : ∀ leaf, Derives fields .leaf (depth leaf) leaf.tokens leaf.selector)
    {rows : List (List (Leaf fields))} (hrows : rows ≠ []) (hrow : ∀ row ∈ rows, row ≠ []) (m : Nat) :
    chainDepth (rows.map fun row => chainDepth (row.map depth)) ≤ m ↔
      ∀ i j row leaf d, rows[i]? = some row → row[j]? = some leaf →
        Derives fields .leaf d leaf.tokens leaf.selector → i + j + d ≤ m := by
  have hor := add_chainDepth_le_iff (fun row => chainDepth (row.map depth)) hrows 0 m
  have hand (i : Nat) {row : List (Leaf fields)} (hi : rows[i]? = some row) :=
    add_chainDepth_le_iff depth (hrow row (List.mem_of_getElem? hi)) i m
  simp only [Nat.zero_add] at hor
  rw [hor]
  constructor
  · intro h i j row leaf d hi hj hleaf
    rw [hleaf.level_unique (hdepth leaf)]
    exact (hand i hi).1 (h i row hi) j leaf hj
  · intro h i row hi
    exact (hand i hi).2 fun j leaf hj => h i j row leaf _ hi hj (hdepth leaf)

end Grammar

open Grammar

/-- **Flat chains.** Leaves that are read alone are read in rows, with `AND` inside a row and `OR`
between the rows, up to the last token, and the selector accepts exactly the candidates that all leaves
of one row accept. Reading fails only for the nesting, and it does so where a leaf lies too deep behind
the links that come before it. -/
theorem readExpression_chain {fields : FieldSet} (rows : List (List (Leaf fields)))
    (hrows : rows ≠ []) (hrow : ∀ row ∈ rows, row ≠ []) :
    (∀ s rest, readExpression fields (chainTokens rows) = (.ok s, rest) →
      rest = [] ∧ ∀ candidate, s.accepts candidate = true ↔
        ∃ row ∈ rows, ∀ leaf ∈ row, leaf.selector.accepts candidate = true) ∧
    (∀ e rest, readExpression fields (chainTokens rows) = (.error e, rest) →
      ∃ near, e = .nestingTooDeep maxNesting near) ∧
    ((∃ s rest, readExpression fields (chainTokens rows) = (.ok s, rest)) ↔
      ∀ i j row leaf d, rows[i]? = some row → row[j]? = some leaf →
        Derives fields .leaf d leaf.tokens leaf.selector → i + j + d ≤ maxNesting) := by
  choose depth _ hdepth using fun leaf : Leaf fields => leaf.exists_derives
  obtain ⟨s, hder, haccepts⟩ := exists_derives_chainTokens hdepth hrows hrow
  rw [← chainDepth_le_iff hdepth hrows hrow]
  by_cases hd : chainDepth (rows.map fun row => chainDepth (row.map depth)) ≤ maxNesting
  · have hread := hder.readExpression_eq hd
    refine ⟨fun s' rest h => ?_, fun e rest h => ?_, fun _ => hd, fun _ => ⟨s, [], hread⟩⟩
    · rw [hread] at h
      cases h
      exact ⟨rfl, haccepts⟩
    · rw [hread] at h
      cases h
  · obtain ⟨near, us, herror⟩ := hder.readExpression_tooDeep (Nat.lt_of_not_le hd)
    refine ⟨fun s' rest h => ?_, fun e rest h => ?_, fun ⟨s', rest, h⟩ => ?_, fun h => absurd h hd⟩
    · rw [herror] at h
      cases h
    · rw [herror] at h
      cases h
      exact ⟨near, rfl⟩
    · rw [herror] at h
      cases h

/-- Conditions, a negation and a group stand in two rows. A row with more links than there are levels is
not read, although each of its leaves is. -/
theorem readExpression_chain_two_rows :
    ∃ one notTwo group : Leaf (FieldSet.ofList ["a"]),
      chainTokens [[one, notTwo], [group]] =
        [.condition "[a=1]", .and, .not, .condition "[a=2]", .or,
          .groupOpen, .condition "[a=1]", .or, .condition "[a=2]", .groupClose] ∧
      (∃ s, readExpression (FieldSet.ofList ["a"]) (chainTokens [[one, notTwo], [group]]) =
          (.ok s, []) ∧
        ∀ candidate, s.accepts candidate = true ↔
          ∃ row ∈ [[one, notTwo], [group]], ∀ leaf ∈ row,
            leaf.selector.accepts candidate = true) ∧
      ∃ near rest, readExpression (FieldSet.ofList ["a"])
        (chainTokens [List.replicate (maxNesting + 2) one]) =
          (.error (.nestingTooDeep maxNesting near), rest) := by
  have hone : ∃ leaf : Leaf (FieldSet.ofList ["a"]), leaf.tokens = [.condition "[a=1]"] :=
    ⟨⟨_, _, .condition, rfl⟩, rfl⟩
  have hnot : ∃ leaf : Leaf (FieldSet.ofList ["a"]),
      leaf.tokens = [.not, .condition "[a=2]"] :=
    ⟨⟨_, _, .not .condition, rfl⟩, rfl⟩
  have hgroup : ∃ leaf : Leaf (FieldSet.ofList ["a"]), leaf.tokens =
      .groupOpen :: ([.condition "[a=1]", .or, .condition "[a=2]"] ++ [.groupClose]) :=
    ⟨⟨_, _, .group rfl, rfl⟩, rfl⟩
  obtain ⟨one, hone⟩ := hone
  obtain ⟨notTwo, hnot⟩ := hnot
  obtain ⟨group, hgroup⟩ := hgroup
  have htokens : chainTokens [[one, notTwo], [group]] =
      [.condition "[a=1]", .and, .not, .condition "[a=2]", .or,
        .groupOpen, .condition "[a=1]", .or, .condition "[a=2]", .groupClose] := by
    simp [chainTokens, rowTokens, hone, hnot, hgroup]
  refine ⟨one, notTwo, group, htokens, ?_, ?_⟩
  · have hread : ∃ s, readExpression (FieldSet.ofList ["a"])
        (chainTokens [[one, notTwo], [group]]) = (.ok s, []) := by
      rw [htokens]
      exact ⟨_, rfl⟩
    obtain ⟨s, hread⟩ := hread
    exact ⟨s, hread, ((readExpression_chain [[one, notTwo], [group]] (by simp) (by simp)).1
      s [] hread).2⟩
  · obtain ⟨d, -, hder⟩ := one.exists_derives
    obtain ⟨-, hfail, hfits⟩ := readExpression_chain [List.replicate (maxNesting + 2) one]
      (by simp) (by simp [maxNesting])
    cases hread : readExpression (FieldSet.ofList ["a"])
        (chainTokens [List.replicate (maxNesting + 2) one]) with
    | mk result rest =>
      cases result with
      | ok s =>
        -- the last leaf would lie below the deepest level
        have hlast := hfits.1 ⟨s, rest, hread⟩ 0 (maxNesting + 1) _ one d rfl (by simp) hder
        omega
      | error e =>
        obtain ⟨near, rfl⟩ := hfail e rest hread
        exact ⟨near, rest, rfl⟩

end SlotQuery
