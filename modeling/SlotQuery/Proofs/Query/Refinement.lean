import Mathlib.Data.List.Forall2
import SlotQuery.Proofs.Query.Recognition
import SlotQuery.Query.SelectorSet

/-!
# More known fields

A `]` that closes a condition over some known fields closes one over more of them too. So a condition
is read to the same place, in one piece or in several: the pieces are conditions with nothing but bare
text between them, and the last one ends where the whole does (`exists_run`). From there on both
readings agree. The order of the fields plays no part at all. Main statement: `lexemes_refine`.
-/

namespace SlotQuery

open Text Boundary

/-! ## Places of lexemes -/

namespace Lexeme

variable {l m first : Lexeme} {gap run : List Lexeme}

/-- The place behind the last character. -/
def stop (l : Lexeme) : Nat := l.start + l.token.display.toList.length

/-- The lexeme is a condition. -/
def IsCondition (l : Lexeme) : Prop := ∃ text, l.token = .condition text

/-- The lexeme stands in the text, from its first place to its last one. -/
def StandsIn (l : Lexeme) (text : List Char) : Prop :=
  ∃ before after, text = before ++ (l.token.display.toList ++ after) ∧ before.length = l.start

/-- The lexeme covers the run: it is all of it, or it is a condition from the start of a first
condition to the end of a last one. -/
inductive Covers (l : Lexeme) : List Lexeme → Prop where
  | self : Covers l [l]
  | run {first last : Lexeme} {between : List Lexeme} : l.IsCondition →
      first.IsCondition → first.start = l.start → last.IsCondition → last.stop = l.stop →
      Covers l (first :: (between ++ [last]))

/-- A condition in front of a run makes a longer run. -/
theorem Covers.cons (h : Covers m run) (hm : m.IsCondition) (hstop : m.stop = l.stop)
    (hl : l.IsCondition) (hfirst : first.IsCondition) (hstart : first.start = l.start)
    (gap : List Lexeme) : Covers l (first :: (gap ++ run)) := by
  cases h with
  | self => exact .run hl hfirst hstart hm hstop
  | @run first' last between _ _ _ hlast hstop' =>
    have h : Covers l (first :: ((gap ++ first' :: between) ++ [last])) :=
      .run hl hfirst hstart hlast (hstop'.trans hstop)
    rwa [List.append_assoc] at h

theorem Covers.exists_start (h : Covers l run) (hl : l.IsCondition) :
    ∃ m ∈ run, m.IsCondition ∧ m.start = l.start := by
  cases h with
  | self => exact ⟨l, List.mem_cons_self, hl, rfl⟩
  | run _ hfirst hstart _ _ => exact ⟨_, List.mem_cons_self, hfirst, hstart⟩

theorem Covers.exists_stop (h : Covers l run) (hl : l.IsCondition) :
    ∃ m ∈ run, m.IsCondition ∧ m.stop = l.stop := by
  cases h with
  | self => exact ⟨l, List.mem_cons_self, hl, rfl⟩
  | @run _ last _ _ _ _ hlast hstop => exact ⟨last, by simp, hlast, hstop⟩

/-- Every span has the run of spans that it covers. -/
theorem exists_covers {ls : List Lexeme} {runs : List (List Lexeme)}
    (h : List.Forall₂ Covers ls runs) (hl : l ∈ ls) : ∃ run ∈ runs, l.Covers run := by
  induction h with
  | nil => cases hl
  | cons hcovers _ ih =>
    rcases List.mem_cons.1 hl with rfl | hl
    · exact ⟨_, List.mem_cons_self, hcovers⟩
    · obtain ⟨run, hrun, hcovers⟩ := ih hl
      exact ⟨run, List.mem_cons_of_mem _ hrun, hcovers⟩

/-- Only conditions cover more than themselves. -/
theorem Covers.mem_of_not_isCondition (h : Covers l run) (hl : ¬ l.IsCondition) : l ∈ run := by
  cases h with
  | self => exact List.mem_cons_self
  | run hl' _ _ _ _ => exact absurd hl' hl

end Lexeme

/-! ## More names -/

namespace Boundary

variable {names names' : List (List Char)} {cs w : List Char}

theorem Opening.mono (hsub : ∀ name ∈ names, name ∈ names') (h : Opening names w) :
    Opening names' w := by
  obtain ⟨name, hname, mark, hmark, rfl⟩ := h
  exact ⟨name, hsub name hname, mark, hmark, rfl⟩

/-- More names, more bridges. -/
theorem Bridge.mono (hsub : ∀ name ∈ names, name ∈ names') (h : Bridge names w) :
    Bridge names' w := by
  obtain ⟨separator, last, items, opening, hs, hi, ho, rfl⟩ := h
  exact ⟨separator, last, items, opening, hs, hi, ho.mono hsub, rfl⟩

/-- More names leave every closing bracket a closing one. -/
theorem Continues.mono (hsub : ∀ name ∈ names, name ∈ names') (h : Continues names cs) :
    Continues names' cs := by
  obtain ⟨trail, rest, rfl, htrail, hrest⟩ := h
  refine ⟨trail, rest, rfl, htrail, hrest.imp id ?_⟩
  rintro ⟨w, hw, hpre⟩
  exact ⟨w, hw.mono hsub, hpre⟩

theorem closes_congr (hsame : ∀ name, name ∈ names ↔ name ∈ names') (cs : List Char) :
    closes names false cs = closes names' false cs := by
  rw [Bool.eq_iff_iff, closes_iff, closes_iff]
  exact ⟨Continues.mono fun name => (hsame name).1, Continues.mono fun name => (hsame name).2⟩

/-- The order of names does not matter to where a condition ends. -/
theorem cut?_congr (hsame : ∀ name, name ∈ names ↔ name ∈ names') :
    cut? names = cut? names' := by
  funext cs
  induction cs with
  | nil => rfl
  | cons c cs ih => rw [cut?, cut?, closes_congr hsame, ih]

/-- In front of a closing bracket the condition ends at that bracket or at an earlier one. -/
theorem cut?_of_continues {tail : List Char} (h : Continues names tail) (value : List Char) :
    cut? names (value ++ ']' :: tail) = some (value, tail) ∨
      ∃ v u, value = v ++ ']' :: u ∧
        cut? names (value ++ ']' :: tail) = some (v, u ++ ']' :: tail) := by
  cases hcut : cut? names (value ++ ']' :: tail) with
  | none => exact absurd h (cut?_eq_none_iff.1 hcut value tail rfl)
  | some found =>
    obtain ⟨v, rest⟩ := found
    obtain ⟨heq, -, hfirst⟩ := cut?_eq_some_iff.1 hcut
    rcases List.append_eq_append_iff.1 heq with ⟨u, rfl, hu⟩ | ⟨u, rfl, hu⟩
    · -- the bracket found would lie behind the given one
      cases u with
      | nil =>
        obtain ⟨-, rfl⟩ := List.cons.inj hu
        exact .inl (by rw [List.append_nil])
      | cons c u =>
        obtain ⟨rfl, rfl⟩ := List.cons.inj hu
        exact absurd h (hfirst value u rfl)
    · cases u with
      | nil =>
        obtain ⟨-, rfl⟩ := List.cons.inj hu
        exact .inl (by rw [List.append_nil])
      | cons c u =>
        obtain ⟨rfl, rfl⟩ := List.cons.inj hu
        exact .inr ⟨v, u, rfl, rfl⟩

end Boundary

namespace Lexer

variable {names names' : List (List Char)} {c : Char} {cs rest w v : List Char} {t : Token} {pos : Nat}
  {ls ms : List Lexeme}

/-! ## Lexemes in front of a rest -/

/-- The text, which starts at the place `pos` and stands in front of `rest`, reads as the lexemes. -/
inductive Scans (names : List (List Char)) (rest : List Char) :
    Nat → List Char → List Lexeme → Prop where
  | done {pos : Nat} : Scans names rest pos [] []
  | blank {pos : Nat} {c : Char} {w : List Char} {ls : List Lexeme} : isBlank c = true →
      Scans names rest (pos + 1) w ls → Scans names rest pos (c :: w) ls
  | token {pos : Nat} {t : Token} {w : List Char} {ls : List Lexeme} :
      readToken names (t.display.toList ++ (w ++ rest)) = .ok (t, w ++ rest) →
      Scans names rest (pos + t.display.toList.length) w ls →
      Scans names rest pos (t.display.toList ++ w) (⟨pos, t⟩ :: ls)

theorem Scans.append (h : Scans names (v ++ rest) pos w ls)
    (h' : Scans names rest (pos + w.length) v ms) : Scans names rest pos (w ++ v) (ls ++ ms) := by
  induction h with
  | done => exact h'
  | blank hc _ ih =>
    refine .blank hc (ih ?_)
    rwa [List.length_cons, ← Nat.add_assoc, Nat.add_right_comm] at h'
  | token hread _ ih =>
    rw [List.append_assoc]
    refine .token (by rwa [List.append_assoc]) (ih ?_)
    rwa [List.length_append, ← Nat.add_assoc] at h'

/-- The lexer finds just what can be scanned. -/
theorem scans_of_lexemesFrom (h : lexemesFrom names pos cs = .ok ls) : Scans names [] pos cs ls := by
  fun_induction lexemesFrom names pos cs generalizing ls with
  | case1 =>
    cases h
    exact .done
  | case2 pos c cs hc ih => exact .blank hc (ih h)
  | case3 => cases h
  | case4 => cases h
  | case5 pos c cs _ t rest hread ls' hls ih =>
    cases h
    have heq := readToken_eq hread
    rw [heq] at hread ⊢
    exact .token (by rwa [List.append_nil]) (ih hls)

theorem lexemesFrom_of_scans (h : Scans names [] pos cs ls) : lexemesFrom names pos cs = .ok ls := by
  induction h with
  | done => rw [lexemesFrom]
  | blank hc _ ih => rw [lexemesFrom, if_pos hc, ih]
  | token hread _ ih =>
    rw [List.append_nil] at hread
    rw [lexemesFrom_of_token hread, ih]
    rfl

theorem lexemesFrom_eq_ok_iff : lexemesFrom names pos cs = .ok ls ↔ Scans names [] pos cs ls :=
  ⟨scans_of_lexemesFrom, lexemesFrom_of_scans⟩

/-- Every lexeme stands at its place. -/
theorem Scans.standsIn (h : Scans names rest pos w ls) (before : List Char)
    (hbefore : before.length = pos) : ∀ l ∈ ls, l.StandsIn (before ++ (w ++ rest)) := by
  induction h generalizing before with
  | done => exact List.forall_mem_nil _
  | @blank pos c w ls _ _ ih =>
    have h := ih (before ++ [c]) (by simp [hbefore])
    simpa using h
  | @token pos t w ls _ _ ih =>
    have h := ih (before ++ t.display.toList) (by simp [hbefore])
    refine List.forall_mem_cons.2 ⟨⟨before, w ++ rest, by simp, hbefore⟩, ?_⟩
    simpa using h

/-- A bare text reads alike in front of every rest. -/
theorem Bare.scans (h : Bare w) (names : List (List Char)) (rest : List Char) (pos : Nat) :
    ∃ ls, Scans names rest pos w ls := by
  induction h generalizing pos with
  | nil => exact ⟨[], .done⟩
  | blank hc _ ih =>
    obtain ⟨ls, hls⟩ := ih (pos + 1)
    exact ⟨ls, .blank hc hls⟩
  | @keyword t w ht _ ih =>
    obtain ⟨ls, hls⟩ := ih (pos + t.display.toList.length)
    exact ⟨⟨pos, t⟩ :: ls, .token (readToken_keyword ht (w ++ rest)) hls⟩

/-! ## A condition in pieces -/

/-- The condition with the value between its brackets. -/
def bracketed (value : List Char) : Token := .condition (String.ofList ('[' :: (value ++ [']'])))

theorem bracketed_display (value : List Char) :
    (bracketed value).display.toList = '[' :: (value ++ [']']) := by
  rw [bracketed, Token.display, String.toList_ofList]

theorem isCondition_bracketed (pos : Nat) (value : List Char) :
    Lexeme.IsCondition ⟨pos, bracketed value⟩ := ⟨_, rfl⟩

/-- A condition is read up to where its text is cut. -/
theorem readToken_bracketed {value : List Char}
    (h : cut? names (value ++ ']' :: rest) = some (value, rest)) :
    readToken names ((bracketed value).display.toList ++ rest) = .ok (bracketed value, rest) :=
  readToken_eq_condition.2
    ⟨value, by rw [String.toList_ofList], by rw [bracketed_display]; simp, h⟩

theorem scans_bracketed {value : List Char}
    (h : cut? names (value ++ ']' :: rest) = some (value, rest)) (pos : Nat) :
    Scans names rest pos (bracketed value).display.toList [⟨pos, bracketed value⟩] := by
  have hscan : Scans names rest pos ((bracketed value).display.toList ++ []) [⟨pos, bracketed value⟩] :=
    .token (readToken_bracketed h) .done
  rwa [List.append_nil] at hscan

theorem Bare.bracketClose_notMem (h : Bare w) : ']' ∉ w := by
  induction h with
  | nil => exact List.not_mem_nil
  | blank hc _ ih =>
    rw [List.mem_cons, not_or]
    refine ⟨?_, ih⟩
    rintro rfl
    cases hc
  | keyword ht _ ih =>
    rw [List.mem_append, not_or]
    refine ⟨?_, ih⟩
    rcases mem_keywords.1 ht with rfl | rfl | rfl | rfl | rfl <;> decide

/-- Where another `]` follows a closing bracket, bare text leads to the next condition in front of it. -/
theorem exists_bare_of_continues {u : List Char} (h : Continues names (u ++ ']' :: rest)) :
    ∃ w value, u = w ++ '[' :: value ∧ Bare w := by
  obtain ⟨hbare, htrail⟩ := front_of_continues h
  by_cases hopen : '[' ∈ u ++ ']' :: rest
  · obtain ⟨w, cs, heq, hw⟩ := List.eq_append_cons_of_mem hopen
    rw [heq, front_append hw, front_bracket, List.append_nil] at hbare
    rcases List.append_eq_append_iff.1 heq with ⟨v, rfl, hv⟩ | ⟨v, rfl, hv⟩
    · cases v with
      | nil => cases (List.cons.inj hv).1
      | cons c v =>
        obtain ⟨rfl, -⟩ := List.cons.inj hv
        exact absurd (by simp) hbare.bracketClose_notMem
    · cases v with
      | nil => cases (List.cons.inj hv).1
      | cons c v =>
        obtain ⟨rfl, -⟩ := List.cons.inj hv
        exact ⟨w, v, rfl, hbare⟩
  · cases htrail hopen ']' (List.mem_append_right u List.mem_cons_self)

/-- In front of a closing bracket the text of a condition reads as a run that the condition covers. -/
theorem exists_run {rest : List Char} (h : Continues names rest) (value : List Char) (pos : Nat) :
    ∃ run, Lexeme.Covers ⟨pos, bracketed value⟩ run ∧
      Scans names rest pos (bracketed value).display.toList run := by
  induction hn : value.length using Nat.strongRecOn generalizing value pos with
  | ind n ih =>
    subst hn
    rcases cut?_of_continues h value with hcut | ⟨v, u, rfl, hcut⟩
    · exact ⟨_, .self, scans_bracketed hcut pos⟩
    · -- the first piece ends early, and bare text leads to the next one
      obtain ⟨w, value, rfl, hw⟩ := exists_bare_of_continues (cut?_eq_some_iff.1 hcut).2.1
      have hlen : value.length < (v ++ ']' :: (w ++ '[' :: value)).length := by
        simp only [List.length_append, List.length_cons]
        omega
      have htext : (bracketed (v ++ ']' :: (w ++ '[' :: value))).display.toList =
          (bracketed v).display.toList ++ (w ++ (bracketed value).display.toList) := by
        simp [bracketed_display]
      have hrest : w ++ '[' :: value ++ ']' :: rest =
          w ++ (bracketed value).display.toList ++ rest := by
        simp [bracketed_display]
      rw [List.append_assoc, List.cons_append, hrest] at hcut
      have hfirst := scans_bracketed hcut pos
      obtain ⟨gap, hgap⟩ := hw.scans names ((bracketed value).display.toList ++ rest)
        (pos + (bracketed v).display.toList.length)
      obtain ⟨run, hcovers, hrun⟩ := ih _ hlen value
        (pos + (bracketed v).display.toList.length + w.length) rfl
      refine ⟨⟨pos, bracketed v⟩ :: (gap ++ run), ?_, ?_⟩
      · refine hcovers.cons (isCondition_bracketed _ value) ?_
          (isCondition_bracketed pos (v ++ ']' :: (w ++ '[' :: value)))
          (isCondition_bracketed pos v) rfl gap
        simp only [Lexeme.stop, htext, List.length_append]
        omega
      · rw [htext]
        exact hfirst.append (hgap.append hrun)

/-- Over more names a text reads as runs that the lexemes cover. -/
theorem Scans.refine (hsub : ∀ name ∈ names, name ∈ names') (h : Scans names rest pos w ls) :
    ∃ runs, List.Forall₂ Lexeme.Covers ls runs ∧ Scans names' rest pos w runs.flatten := by
  induction h with
  | done => exact ⟨[], .nil, .done⟩
  | blank hc _ ih =>
    obtain ⟨runs, hcovers, hscan⟩ := ih
    exact ⟨runs, hcovers, .blank hc hscan⟩
  | @token pos t w ls hread _ ih =>
    obtain ⟨runs, hcovers, hscan⟩ := ih
    rcases keyword_or_condition hread with ht | ⟨b, rfl⟩
    · exact ⟨[⟨pos, t⟩] :: runs, .cons .self hcovers, .token (readToken_keyword ht _) hscan⟩
    · obtain ⟨value, hb, -, -⟩ := readToken_eq_condition.1 hread
      obtain rfl : b = String.ofList ('[' :: (value ++ [']'])) := by
        rw [← hb, String.ofList_toList]
      have hcont : Continues names' (w ++ rest) := (continues_of_readToken hread).mono hsub
      obtain ⟨run, hcover, hrun⟩ := exists_run hcont value pos
      exact ⟨run :: runs, .cons hcover hcovers, hrun.append hscan⟩

/-! ## The same names in another order -/

/-- The order of names does not matter to a token. -/
theorem readToken_congr (hsame : ∀ name, name ∈ names ↔ name ∈ names') :
    readToken names = readToken names' := by
  funext text
  unfold readToken
  rw [cut?_congr hsame]

theorem lexemesFrom_congr (hsame : ∀ name, name ∈ names ↔ name ∈ names') (pos : Nat)
    (cs : List Char) : lexemesFrom names pos cs = lexemesFrom names' pos cs := by
  have hread := readToken_congr hsame
  fun_induction lexemesFrom names pos cs with
  | case1 => rw [lexemesFrom]
  | case2 pos c cs hc ih => rw [lexemesFrom, if_pos hc, ih]
  | case3 pos c cs hc e herr =>
    rw [lexemesFrom_of_error (Bool.eq_false_iff.2 hc) (hread ▸ herr)]
  | case4 pos c cs _ t rest hok e herr ih =>
    rw [lexemesFrom_of_token (hread ▸ hok), ← ih, herr]
    rfl
  | case5 pos c cs _ t rest hok ls hls ih =>
    rw [lexemesFrom_of_token (hread ▸ hok), ← ih, hls]
    rfl

end Lexer

variable {fields fields' : FieldSet}

/-- The names to look for grow with the known ones, as long as there is one. -/
theorem FieldSet.starts_mono (hknown : fields.names ≠ [])
    (hsub : ∀ name ∈ fields.names, name ∈ fields'.names) :
    ∀ name ∈ fields.starts, name ∈ fields'.starts := by
  obtain ⟨name, hname⟩ := List.exists_mem_of_ne_nil _ hknown
  rw [starts_of_ne_nil hknown, starts_of_ne_nil (List.ne_nil_of_mem (hsub name hname))]
  intro start hstart
  obtain ⟨name, hname, rfl⟩ := List.mem_map.1 hstart
  exact List.mem_map_of_mem (hsub name hname)

theorem FieldSet.mem_starts_congr (hsame : ∀ name, name ∈ fields.names ↔ name ∈ fields'.names)
    (name : List Char) : name ∈ fields.starts ↔ name ∈ fields'.starts := by
  by_cases hknown : fields.names = []
  · have hknown' : fields'.names = [] :=
      List.eq_nil_iff_forall_not_mem.2 fun n hn => by simpa [hknown] using (hsame n).2 hn
    rw [starts, starts, hknown, hknown']
  · obtain ⟨n, hn⟩ := List.exists_mem_of_ne_nil _ hknown
    have hknown' : fields'.names ≠ [] := List.ne_nil_of_mem ((hsame n).1 hn)
    exact ⟨starts_mono hknown (fun n => (hsame n).1) name,
      starts_mono hknown' (fun n => (hsame n).2) name⟩

theorem lexemes_congr (hsame : ∀ name, name ∈ fields.names ↔ name ∈ fields'.names)
    (query : String) : lexemes fields query = lexemes fields' query :=
  Lexer.lexemesFrom_congr (FieldSet.mem_starts_congr hsame) 0 query.toList

theorem Condition.compile_congr (hsame : ∀ name, name ∈ fields.names ↔ name ∈ fields'.names) :
    compile fields = compile fields' := by
  have hcontains (name : String) : fields.contains name = fields'.contains name := by
    rw [Bool.eq_iff_iff, FieldSet.contains_iff, FieldSet.contains_iff]
    exact hsame name
  funext text
  simp only [compile, hcontains]

theorem Grammar.level_congr (hsame : ∀ name, name ∈ fields.names ↔ name ∈ fields'.names) (n : Nat) :
    level fields n = level fields' n := by
  have hleaf (below : Level) : leaf fields below = leaf fields' below := by
    funext ts
    unfold leaf
    rw [Condition.compile_congr hsame]
  induction n with
  | zero => rfl
  | succ n ih => rw [level, level, ih, hleaf]

theorem SelectorSet.readAll_congr (hsame : ∀ name, name ∈ fields.names ↔ name ∈ fields'.names)
    (ts : List Token) : readAll fields ts = readAll fields' ts := by
  have hread : readExpression fields = readExpression fields' := by
    rw [readExpression, readExpression, Grammar.level_congr hsame]
  fun_induction readAll fields ts with
  | case1 | case2 => rw [readAll]
  | case3 t ts ht e rest h =>
    have hpeek : Token.peek (t :: ts) ≠ .endOfInput := ht
    rw [readAll_of_error hpeek (hread ▸ h)]
  | case4 t ts _ s rest h e hall ih | case5 t ts _ s rest h ss hall ih =>
    rw [readAll_of_ok (hread ▸ h), ← ih, hall]
    rfl

/-- The same names in another order compile every query alike. -/
theorem SelectorSet.compile_congr (hsame : ∀ name, name ∈ fields.names ↔ name ∈ fields'.names)
    (query : String) : compile fields query = compile fields' query := by
  unfold compile tokenize
  rw [lexemes_congr hsame]
  simp only [readAll_congr hsame]

/-- **More known fields.** Over more names a query is read in smaller pieces: its lexemes come in runs,
each of which one lexeme over fewer names covers. So a condition starts where one of the smaller
conditions starts and ends where one ends, and every other lexeme stays as it is. The order of the names
changes neither the tokens nor what is compiled. -/
theorem lexemes_refine (fields fields' : FieldSet)
    (hsub : ∀ name ∈ fields.names, name ∈ fields'.names) (query : String) :
    (fields.names ≠ [] → ∀ ls, lexemes fields query = .ok ls →
      ∃ ms runs, lexemes fields' query = .ok ms ∧ ms = runs.flatten ∧
        List.Forall₂ Lexeme.Covers ls runs ∧
        (∀ l ∈ ls, l.IsCondition → (∃ m ∈ ms, m.IsCondition ∧ m.start = l.start) ∧
          ∃ m ∈ ms, m.IsCondition ∧ m.stop = l.stop) ∧
        (∀ l ∈ ls, ¬ l.IsCondition → l ∈ ms) ∧
        (∀ l ∈ ls, l.StandsIn query.toList) ∧ ∀ m ∈ ms, m.StandsIn query.toList) ∧
    ((∀ name ∈ fields'.names, name ∈ fields.names) →
      tokenize fields query = tokenize fields' query ∧
        SelectorSet.compile fields query = SelectorSet.compile fields' query) := by
  refine ⟨fun hknown ls hls => ?_, fun hsub' => ?_⟩
  · have hscan := Lexer.lexemesFrom_eq_ok_iff.1 hls
    obtain ⟨runs, hcovers, hscan'⟩ := hscan.refine (FieldSet.starts_mono hknown hsub)
    refine ⟨runs.flatten, runs, Lexer.lexemesFrom_eq_ok_iff.2 hscan', rfl, hcovers, fun l hl hcond => ?_,
      fun l hl hcond => ?_, ?_, ?_⟩
    · obtain ⟨run, hrun, hcover⟩ := Lexeme.exists_covers hcovers hl
      obtain ⟨m, hm, hstart⟩ := hcover.exists_start hcond
      obtain ⟨m', hm', hstop⟩ := hcover.exists_stop hcond
      exact ⟨⟨m, List.mem_flatten_of_mem hrun hm, hstart⟩, m', List.mem_flatten_of_mem hrun hm', hstop⟩
    · obtain ⟨run, hrun, hcover⟩ := Lexeme.exists_covers hcovers hl
      exact List.mem_flatten_of_mem hrun (hcover.mem_of_not_isCondition hcond)
    · simpa using hscan.standsIn [] rfl
    · simpa using hscan'.standsIn [] rfl
  · have hsame (name : String) : name ∈ fields.names ↔ name ∈ fields'.names :=
      ⟨hsub name, hsub' name⟩
    refine ⟨?_, SelectorSet.compile_congr hsame query⟩
    rw [tokenize, tokenize, lexemes_congr hsame]

/-- Of `[a=x] [b=y] OR [a=1]` the field `b` splits the first condition, and the order of `a` and `b` is
of no account. -/
theorem lexemes_refine_second_field :
    (∀ name ∈ (FieldSet.ofList ["a"]).names, name ∈ (FieldSet.ofList ["b", "a"]).names) ∧
      lexemes (FieldSet.ofList ["a"]) "[a=x] [b=y] OR [a=1]" =
        .ok [⟨0, .condition "[a=x] [b=y]"⟩, ⟨12, .or⟩, ⟨15, .condition "[a=1]"⟩] ∧
      (∃ runs : List (List Lexeme), runs.flatten =
          [⟨0, .condition "[a=x]"⟩, ⟨6, .condition "[b=y]"⟩, ⟨12, .or⟩, ⟨15, .condition "[a=1]"⟩] ∧
        List.Forall₂ Lexeme.Covers
          [⟨0, .condition "[a=x] [b=y]"⟩, ⟨12, .or⟩, ⟨15, .condition "[a=1]"⟩] runs) ∧
      tokenize (FieldSet.ofList ["a", "b"]) "[a=x] [b=y] OR [a=1]" =
        tokenize (FieldSet.ofList ["b", "a"]) "[a=x] [b=y] OR [a=1]" := by
  have hsub : ∀ name ∈ (FieldSet.ofList ["a"]).names, name ∈ (FieldSet.ofList ["b", "a"]).names := by
    decide
  have hfew : lexemes (FieldSet.ofList ["a"]) "[a=x] [b=y] OR [a=1]" =
      .ok [⟨0, .condition "[a=x] [b=y]"⟩, ⟨12, .or⟩, ⟨15, .condition "[a=1]"⟩] := by
    cbv
  have hmany : lexemes (FieldSet.ofList ["b", "a"]) "[a=x] [b=y] OR [a=1]" =
      .ok [⟨0, .condition "[a=x]"⟩, ⟨6, .condition "[b=y]"⟩, ⟨12, .or⟩, ⟨15, .condition "[a=1]"⟩] := by
    cbv
  obtain ⟨ms, runs, hms, rfl, hcovers, -⟩ := (lexemes_refine _ _ hsub _).1 (by decide) _ hfew
  rw [hmany] at hms
  refine ⟨hsub, hfew, ⟨runs, (Except.ok.inj hms).symm, hcovers⟩, ?_⟩
  exact ((lexemes_refine (FieldSet.ofList ["a", "b"]) (FieldSet.ofList ["b", "a"]) (by decide) _).2
    (by decide)).1

end SlotQuery
