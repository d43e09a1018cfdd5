import SlotQuery.Proofs.Query.Canonical

/-!
# Reading canonical texts back

The tokens of a canonical text derive the selector they were made of, at the level that
`Selector.renderedNesting` counts. So the text compiles to the selector as long as that level exists, and
fails for its nesting otherwise. Main statement: `render_roundTrip`.
-/

namespace SlotQuery

/-- The level of the deepest condition in the canonical text. The parentheses around a link put both
sides one level down. -/
def Selector.renderedNesting : Selector → Nat
  | condition _ => 0
  | and left right | or left right => max (left.renderedNesting + 1) (right.renderedNesting + 2)
  | not s => s.renderedNesting + 1

theorem Selector.renderedNesting_and (left right : Selector) :
    (and left right).renderedNesting =
      max left.renderedNesting (right.renderedNesting + 1) + 1 := by
  rw [renderedNesting]
  omega

theorem Selector.renderedNesting_or (left right : Selector) :
    (or left right).renderedNesting =
      max left.renderedNesting (right.renderedNesting + 1) + 1 := by
  rw [renderedNesting]
  omega

theorem Selector.height_le_renderedNesting (s : Selector) : s.height ≤ s.renderedNesting := by
  induction s with
  | condition _ => exact Nat.le_refl 0
  | and left right ihl ihr | or left right ihl ihr =>
    rw [height, renderedNesting]
    omega
  | not s ih => exact Nat.succ_le_succ ih

/-- Every condition of the selector compiles from its canonical text. -/
def Selector.Recompiles (fields : FieldSet) (s : Selector) : Prop :=
  ∀ c ∈ s.conditions, Condition.compile fields c.render = .ok c

theorem Selector.Canonical.recompiles {fields : FieldSet} {s : Selector} (h : s.Canonical fields) :
    s.Recompiles fields := by
  intro c hc
  obtain ⟨hknown, hclean, -⟩ := h c hc
  exact Condition.compile_render hclean hknown

namespace Grammar

variable {fields : FieldSet} {s : Selector}

/-- The tokens of the canonical text derive the selector. -/
theorem derives_tokens (h : s.Recompiles fields) :
    Derives fields .leaf s.renderedNesting s.tokens s := by
  induction s with
  | condition c => exact .condition (h c (List.mem_singleton_self c))
  | and left right ihl ihr =>
    obtain ⟨hleft, hright⟩ := List.forall_mem_append.1 h
    have hgroup := Derives.group (.ofConjunction (.and (ihl hleft) (.ofLeaf (ihr hright))))
    rw [Selector.renderedNesting_and]
    simpa [Selector.tokens] using hgroup
  | or left right ihl ihr =>
    obtain ⟨hleft, hright⟩ := List.forall_mem_append.1 h
    have hgroup := Derives.group (.or (.ofLeaf (ihl hleft)) (.ofConjunction (.ofLeaf (ihr hright))))
    rw [Selector.renderedNesting_or]
    simpa [Selector.tokens] using hgroup
  | not s ih => exact .not (ih h)

end Grammar

/-- Negations can be written in front of a query. -/
theorem exists_tokenize_nots {fields : FieldSet} {query : String} {ts : List Token}
    (h : tokenize fields query = .ok ts) (n : Nat) :
    ∃ query', tokenize fields query' = .ok (List.replicate n .not ++ ts) := by
  induction n with
  | zero => exact ⟨query, h⟩
  | succ n ih =>
    obtain ⟨query', h'⟩ := ih
    refine ⟨"NOT " ++ query', ?_⟩
    rw [tokenize_eq_ok_iff] at h' ⊢
    rw [String.toList_append]
    exact .token rfl (.blank (by decide) h')

/-! ## Reading the tokens of a set -/

namespace SelectorSet

open Grammar

variable {fields : FieldSet} {ts rest : List Token} {s : Selector} {ss : List Selector}

theorem readAll_of_tooDeep (h : TooDeep (readExpression fields ts)) :
    ∃ near, readAll fields ts = .error (.nestingTooDeep maxNesting near) := by
  obtain ⟨near, rest, h⟩ := h
  refine ⟨near, readAll_of_error (fun hend => ?_) h⟩
  cases ts with
  | nil => cases h
  | cons t ts =>
    obtain rfl : t = .endOfInput := hend
    cases h

theorem stops_flatMap_tokens (ss : List Selector) :
    Rule.disjunction.Stops (ss.flatMap Selector.tokens) := by
  cases ss with
  | nil => simp [Rule.Stops]
  | cons s ss => cases s <;> simp [Rule.Stops, Rule.links, Selector.tokens]

theorem readExpression_tokens (h : s.Recompiles fields) (hs : s.renderedNesting ≤ maxNesting)
    (ss : List Selector) :
    readExpression fields (s.tokens ++ ss.flatMap Selector.tokens) =
      (.ok s, ss.flatMap Selector.tokens) :=
  (derives_tokens h).ofLeaf.ofConjunction.read (Nat.lt_succ_of_le hs) (stops_flatMap_tokens ss)

/-- The tokens of selectors with a level for each condition are read. -/
theorem readAll_tokens (h : ∀ s ∈ ss, s.Recompiles fields)
    (hss : ∀ s ∈ ss, s.renderedNesting ≤ maxNesting) :
    readAll fields (ss.flatMap Selector.tokens) = .ok ss := by
  induction ss with
  | nil => rw [List.flatMap_nil, readAll]
  | cons s ss ih =>
    have hread := readExpression_tokens (h s List.mem_cons_self) (hss s List.mem_cons_self) ss
    have hall := ih (fun s hs => h s (List.mem_cons_of_mem _ hs))
      fun s hs => hss s (List.mem_cons_of_mem _ hs)
    rw [List.flatMap_cons, readAll_of_ok hread, hall]
    rfl

/-- The first selector without one is where reading fails. -/
theorem readAll_tokens_tooDeep (h : ∀ s ∈ ss, s.Recompiles fields) (hs : s ∈ ss)
    (hdeep : maxNesting < s.renderedNesting) :
    ∃ near, readAll fields (ss.flatMap Selector.tokens) =
      .error (.nestingTooDeep maxNesting near) := by
  induction ss with
  | nil => cases hs
  | cons s' ss ih =>
    have hs' := h s' List.mem_cons_self
    rw [List.flatMap_cons]
    by_cases hn : s'.renderedNesting ≤ maxNesting
    · have hmem : s ∈ ss := by
        rcases List.mem_cons.1 hs with rfl | hs
        · exact absurd hdeep (Nat.not_lt.2 hn)
        · exact hs
      obtain ⟨near, hall⟩ := ih (fun s hs => h s (List.mem_cons_of_mem _ hs)) hmem
      refine ⟨near, ?_⟩
      rw [readAll_of_ok (readExpression_tokens hs' hn ss), hall]
      rfl
    · have hder := (derives_tokens hs').ofLeaf.ofConjunction
      exact readAll_of_tooDeep (hder.tooDeep (Nat.lt_of_not_le hn) (ss.flatMap Selector.tokens))

/-- **Canonical texts compile back.** Selectors of compiled queries make up a set in any order. Its
canonical text compiles to the set if there is a level for every condition of that text, and else fails
for the nesting and nothing else. -/
theorem render_roundTrip (fields : FieldSet) (hfields : fields.Plain) (set : SelectorSet)
    (hset : ∀ s ∈ set.selectors, ∃ query source, compile fields query = .ok source ∧
      s ∈ source.selectors) :
    ((∀ s ∈ set.selectors, s.renderedNesting ≤ maxNesting) →
      compile fields set.render = .ok set) ∧
    ((∃ s ∈ set.selectors, maxNesting < s.renderedNesting) →
      ∃ near, compile fields set.render = .error (.nestingTooDeep maxNesting near)) := by
  have hcanonical : ∀ s ∈ set.selectors, s.Canonical fields := by
    intro s hs
    obtain ⟨query, source, hsource, hmem⟩ := hset s hs
    exact canonical_of_compile hfields hsource hmem
  have hrecompiles := fun s hs => (hcanonical s hs).recompiles
  rw [compile_of_tokenize (tokenize_render hfields hcanonical)]
  constructor
  · intro hshallow
    rw [readAll_tokens hrecompiles hshallow]
    rfl
  · rintro ⟨s, hs, hdeep⟩
    obtain ⟨near, hall⟩ := readAll_tokens_tooDeep hrecompiles hs hdeep
    exact ⟨near, by rw [hall]; rfl⟩

/-- Values with `]` and keywords are read back, also where selectors change places and repeat. A query
that nests no deeper than it may can have a canonical text that does. -/
theorem render_roundTrip_brackets_negations :
    (∃ source, compile (FieldSet.ofList ["a"]) "[a*=x] AND y] OR NOT [a=[1]]  [a=NOT]" =
        .ok source ∧ source.size = 2 ∧
      compile (FieldSet.ofList ["a"]) (render ⟨source.selectors.reverse ++ source.selectors⟩) =
        .ok ⟨source.selectors.reverse ++ source.selectors⟩) ∧
    ∃ query source near, compile (FieldSet.ofList ["a"]) query = .ok source ∧
      compile (FieldSet.ofList ["a"]) source.render =
        .error (.nestingTooDeep maxNesting near) := by
  have hplain : (FieldSet.ofList ["a"]).Plain := by
    refine ⟨by decide, fun name hname c hc => ?_⟩
    obtain rfl : name = "a" := List.mem_singleton.1 hname
    obtain rfl : 'a' = c := Option.some.inj hc
    decide
  constructor
  · have htokens : tokenize (FieldSet.ofList ["a"]) "[a*=x] AND y] OR NOT [a=[1]]  [a=NOT]" =
        .ok [.condition "[a*=x] AND y]", .or, .not, .condition "[a=[1]]", .condition "[a=NOT]"] := by
      cbv
    have hfirst : ∃ s, readExpression (FieldSet.ofList ["a"])
        [.condition "[a*=x] AND y]", .or, .not, .condition "[a=[1]]", .condition "[a=NOT]"] =
          (.ok s, [.condition "[a=NOT]"]) ∧ s.renderedNesting ≤ maxNesting :=
      ⟨_, rfl, by decide⟩
    have hsecond : ∃ s, readExpression (FieldSet.ofList ["a"]) [.condition "[a=NOT]"] =
        (.ok s, []) ∧ s.renderedNesting ≤ maxNesting :=
      ⟨_, rfl, by decide⟩
    obtain ⟨s, hs, hshallow⟩ := hfirst
    obtain ⟨s', hs', hshallow'⟩ := hsecond
    have hsource : compile (FieldSet.ofList ["a"]) "[a*=x] AND y] OR NOT [a=[1]]  [a=NOT]" =
        .ok ⟨[s, s']⟩ := by
      rw [compile_of_tokenize htokens, readAll_of_ok hs, readAll_of_ok hs', readAll]
      rfl
    have hmem : ∀ t ∈ [s, s'].reverse ++ [s, s'], t ∈ [s, s'] := by
      simp only [List.mem_append, List.mem_reverse, or_self, imp_self, implies_true]
    refine ⟨⟨[s, s']⟩, hsource, rfl, ?_⟩
    refine (render_roundTrip _ hplain _ fun t ht => ⟨_, _, hsource, hmem t ht⟩).1 fun t ht => ?_
    obtain rfl | rfl : t = s ∨ t = s' := by simpa using hmem t ht
    · exact hshallow
    · exact hshallow'
  · have hc : ∃ c, Condition.compile (FieldSet.ofList ["a"]) "[a=1]" = .ok c := ⟨_, rfl⟩
    obtain ⟨c, hc⟩ := hc
    obtain ⟨s, hder, hheight⟩ := Derives.exists_nots_and hc maxNesting
    have hlink : tokenize (FieldSet.ofList ["a"]) "[a=1] AND [a=1]" =
        .ok [.condition "[a=1]", .and, .condition "[a=1]"] := by
      cbv
    obtain ⟨query, htokens⟩ := exists_tokenize_nots hlink maxNesting
    have hread := hder.readExpression_eq (by decide)
    have hsource := compile_of_tokenize htokens
    rw [readAll_of_ok hread, readAll] at hsource
    have hdeep : maxNesting < s.renderedNesting := by
      have hle := s.height_le_renderedNesting
      omega
    obtain ⟨near, hnear⟩ := (render_roundTrip _ hplain ⟨[s]⟩ fun t ht => ⟨_, _, hsource, ht⟩).2
      ⟨s, List.mem_singleton_self s, hdeep⟩
    exact ⟨_, _, near, hsource, hnear⟩

end SelectorSet

end SlotQuery
