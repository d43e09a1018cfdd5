import Mathlib.Data.List.Forall2
import SlotQuery.Proofs.Regex.Span

/-!
# The match that is preferred

A pattern may match a text in several ways. A search takes the one that it tries first: every step of the
pattern tries shorter or longer words in an order of its own, and a step goes on to its next word only
when the steps behind it have none left. `splits` lists the ways in this order. It lists all of them and
nothing else (`mem_splits_iff`, `exists_split_iff`).
-/

open scoped Computability

namespace SlotQuery.Regex

/-- A step of a pattern: it reads characters of one set, and tries how many in a certain order. -/
inductive Step where
  | once (s : CharSet)
  /-- One character or none, one is tried first. -/
  | optional (s : CharSet)
  /-- Any number of characters, less are tried first. -/
  | lazyRun (s : CharSet)
  /-- Any number of characters, more are tried first. -/
  | greedyRun (s : CharSet)

/-- A character of the set at the front of a text, and what it leaves. -/
def single (s : CharSet) : List Char → List (List Char × List Char)
  | [] => []
  | c :: cs => if s.contains c then [([c], cs)] else []

/-- The runs of characters of the set at the front of a text, and what they leave, from short to long. -/
def runs (s : CharSet) : List Char → List (List Char × List Char)
  | [] => [([], [])]
  | c :: cs =>
    ([], c :: cs) :: if s.contains c then (runs s cs).map fun r => (c :: r.1, r.2) else []

namespace Step

/-- The pattern of the step, whatever it tries first. -/
def toRegex : Step → Regex
  | once s => chars s
  | optional s => rep (chars s) 0 (some 1)
  | lazyRun s | greedyRun s => rep (chars s) 0 none

/-- The words that the step may read. -/
def language : Step → Language Char
  | once s => letters s.contains
  | optional s => 1 + letters s.contains
  | lazyRun s | greedyRun s => (letters s.contains)∗

/-- The words that the step reads at the front of a text, and what they leave, as it tries them. -/
def reads : Step → List Char → List (List Char × List Char)
  | once s, cs => single s cs
  | optional s, cs => single s cs ++ [([], cs)]
  | lazyRun s, cs => runs s cs
  | greedyRun s, cs => (runs s cs).reverse

end Step

/-- The ways in which the steps read a whole text, each a word for every step, as they are tried. -/
def splits : List Step → List Char → List (List (List Char))
  | [], [] => [[]]
  | [], _ :: _ => []
  | p :: ps, cs => (p.reads cs).flatMap fun r => (splits ps r.2).map (r.1 :: ·)

/-! ## All ways are tried -/

variable {s : CharSet} {p : Step} {ps : List Step} {c : Char} {cs w rest : List Char}
  {ws : List (List Char)}

theorem mem_single_iff : (w, rest) ∈ single s cs ↔ cs = w ++ rest ∧ w ∈ letters s.contains := by
  cases cs with
  | nil =>
    simp only [single, List.not_mem_nil, false_iff]
    rintro ⟨heq, d, -, rfl⟩
    cases heq
  | cons c cs =>
    rw [single]
    constructor
    · intro h
      split at h
      · next hc =>
        cases List.mem_singleton.1 h
        exact ⟨rfl, c, hc, rfl⟩
      · cases h
    · rintro ⟨heq, d, hd, rfl⟩
      cases heq
      simp [hd]

theorem mem_runs_iff : (w, rest) ∈ runs s cs ↔ cs = w ++ rest ∧ w ∈ (letters s.contains)∗ := by
  rw [mem_kstar_letters]
  induction cs generalizing w with
  | nil => cases w <;> simp [runs]
  | cons c cs ih =>
    rw [runs, List.mem_cons]
    constructor
    · rintro (h | h)
      · cases h
        simp
      · split at h
        · next hc =>
          obtain ⟨⟨v, _⟩, hv, h⟩ := List.mem_map.1 h
          cases h
          obtain ⟨rfl, hall⟩ := ih.1 hv
          exact ⟨rfl, List.forall_mem_cons.2 ⟨hc, hall⟩⟩
        · cases h
    · rintro ⟨heq, hall⟩
      cases w with
      | nil => exact .inl (by rw [← List.nil_append rest, ← heq])
      | cons d v =>
        cases heq
        obtain ⟨hc, hall⟩ := List.forall_mem_cons.1 hall
        rw [if_pos hc]
        exact .inr (List.mem_map.2 ⟨(v, rest), ih.2 ⟨rfl, hall⟩, rfl⟩)

theorem Step.mem_reads_iff : (w, rest) ∈ p.reads cs ↔ cs = w ++ rest ∧ w ∈ p.language := by
  cases p with
  | once s => exact mem_single_iff
  | optional s =>
    rw [reads, List.mem_append, mem_single_iff, language, Language.mem_add, Language.mem_one]
    constructor
    · rintro (⟨hcs, hw⟩ | h)
      · exact ⟨hcs, .inr hw⟩
      · cases List.mem_singleton.1 h
        exact ⟨rfl, .inl rfl⟩
    · rintro ⟨rfl, rfl | hw⟩
      · exact .inr (List.mem_singleton_self _)
      · exact .inl ⟨rfl, hw⟩
  | lazyRun s => exact mem_runs_iff
  | greedyRun s => exact List.mem_reverse.trans mem_runs_iff

/-- The ways in which steps read a text are all ways to divide it into words of theirs. -/
theorem mem_splits_iff : ws ∈ splits ps cs ↔
    cs = ws.flatten ∧ List.Forall₂ (fun p w => w ∈ p.language) ps ws := by
  induction ps generalizing cs ws with
  | nil =>
    rw [List.forall₂_nil_left_iff]
    cases cs <;> cases ws <;> simp [splits]
  | cons p ps ih =>
    rw [splits]
    simp only [List.mem_flatMap, List.mem_map, Prod.exists, Step.mem_reads_iff, ih]
    constructor
    · rintro ⟨w, _, ⟨rfl, hw⟩, ws, ⟨rfl, hws⟩, rfl⟩
      exact ⟨rfl, .cons hw hws⟩
    · rintro ⟨rfl, hws⟩
      cases hws with
      | cons hw hws => exact ⟨_, _, ⟨rfl, hw⟩, _, ⟨rfl, hws⟩, rfl⟩

/-! ## Whole texts -/

theorem Step.reads_toRegex (p : Step) : Reads p.toRegex p.language := by
  cases p with
  | once s => exact reads_chars s
  | optional s => exact (reads_chars s).optional
  | lazyRun s | greedyRun s => exact (reads_chars s).star

/-- The pattern of the steps, for texts that they read from end to end. -/
def wholly (ps : List Step) : Regex :=
  .seq (.anchor .textStart) (sequence (ps.map Step.toRegex ++ [.anchor .textEnd]))

theorem exists_split_iff_spans (ps : List Step) (p : Place) :
    (∃ ws, ws ∈ splits ps p.rest) ↔
      ∃ q, (sequence (ps.map Step.toRegex ++ [.anchor .textEnd])).Spans p q := by
  induction ps generalizing p with
  | nil =>
    obtain ⟨before, rest⟩ := p
    cases rest <;> simp [splits, sequence, Spans, Anchor.holds]
  | cons step ps ih =>
    constructor
    · rintro ⟨ws, hws⟩
      rw [splits, List.mem_flatMap] at hws
      obtain ⟨⟨w, rest⟩, hread, hws⟩ := hws
      obtain ⟨ws, hws, -⟩ := List.mem_map.1 hws
      obtain ⟨hrest, hw⟩ := Step.mem_reads_iff.1 hread
      have hskip : (p.skip w).rest = rest := by simp [hrest]
      obtain ⟨q, hq⟩ := (ih (p.skip w)).1 ⟨ws, hskip ▸ hws⟩
      exact ⟨q, p.skip w, (step.reads_toRegex p _).2 ⟨w, hw, ⟨rest, hrest.symm⟩, rfl⟩, hq⟩
    · rintro ⟨q, m, hm, hq⟩
      obtain ⟨w, hw, ⟨rest, hrest⟩, rfl⟩ := (step.reads_toRegex p m).1 hm
      obtain ⟨ws, hws⟩ := (ih (p.skip w)).2 ⟨q, hq⟩
      have hskip : (p.skip w).rest = rest := by simp [← hrest]
      refine ⟨w :: ws, List.mem_flatMap.2 ⟨(w, rest), ?_, List.mem_map_of_mem (hskip ▸ hws)⟩⟩
      exact Step.mem_reads_iff.2 ⟨hrest.symm, hw⟩

/-- There is a way to read a text exactly if the pattern matches it. -/
theorem exists_split_iff : (∃ ws, ws ∈ splits ps cs) ↔ (wholly ps).StartsAt [] cs := by
  rw [exists_split_iff_spans ps ⟨none, cs⟩]
  simp [StartsAt, wholly, Spans, Anchor.holds]

/-! ## The way that is tried first -/

/-- The words that the steps take of a text: of the ways to read it, the one that is tried first. -/
def firstSplit? (ps : List Step) (cs : List Char) : Option (List (List Char)) :=
  (splits ps cs).head?

theorem firstSplit?_cons (p : Step) (ps : List Step) (cs : List Char) :
    firstSplit? (p :: ps) cs =
      (p.reads cs).findSome? fun r => (firstSplit? ps r.2).map (r.1 :: ·) := by
  simp only [firstSplit?, splits, List.head?_flatMap, List.head?_map]

theorem firstSplit?_once_cons : firstSplit? (.once s :: ps) (c :: cs) =
    if s.contains c then (firstSplit? ps cs).map ([c] :: ·) else none := by
  rw [firstSplit?_cons]
  cases hc : s.contains c <;> simp [Step.reads, single, hc]

theorem firstSplit?_optional : firstSplit? (.optional s :: ps) cs =
    (firstSplit? (.once s :: ps) cs).or ((firstSplit? ps cs).map ([] :: ·)) := by
  simp only [firstSplit?_cons, Step.reads, List.findSome?_append, List.findSome?_singleton]

theorem firstSplit?_lazyRun_cons : firstSplit? (.lazyRun s :: ps) (c :: cs) =
    ((firstSplit? ps (c :: cs)).map ([] :: ·)).or
      (if s.contains c then (firstSplit? (.lazyRun s :: ps) cs).map (·.modifyHead (c :: ·))
        else none) := by
  simp only [firstSplit?_cons (.lazyRun s), Step.reads, runs, List.findSome?_cons]
  cases firstSplit? ps (c :: cs) with
  | some ws => rfl
  | none =>
    cases hc : s.contains c with
    | false => simp
    | true =>
      simp only [Option.map_none, Option.none_or, if_true, List.findSome?_map, List.map_findSome?]
      congr 1
      funext r
      exact (Option.map_map (·.modifyHead (c :: ·)) (r.1 :: ·) (firstSplit? ps r.2)).symm

/-- At the end of a pattern a run that prefers more takes all. -/
theorem firstSplit?_greedyRun (h : ∀ c ∈ cs, s.contains c = true) :
    firstSplit? [.greedyRun s] cs = some [cs] := by
  have hlast : (runs s cs).getLast? = some (cs, []) := by
    induction cs with
    | nil => rfl
    | cons c cs ih =>
      obtain ⟨hc, hcs⟩ := List.forall_mem_cons.1 h
      rw [runs, if_pos hc, List.getLast?_cons, List.getLast?_map, ih hcs]
      rfl
  rw [firstSplit?_cons, Step.reads]
  rw [← List.head?_reverse] at hlast
  obtain ⟨rs, hrs⟩ := List.head?_eq_some_iff.1 hlast
  rw [hrs]
  rfl

end SlotQuery.Regex
