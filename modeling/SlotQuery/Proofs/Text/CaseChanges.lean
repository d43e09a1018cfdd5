import Mathlib.Data.Bool.AllAny
import Mathlib.Data.List.Induction
import SlotQuery.Text.Blank
import SlotQuery.Text.Case

/-!
# Changes of case

What a change of case leaves alone. White space is neither changed nor made by one (`isBlank_fold`,
`isBlank_lowerSimple`). `Lowers` says of two texts that one is a lower-case form of the other, character by
character, whatever the characters around a capital sigma ask for; so it holds of the parts of a text as it
does of the whole (`lowers_append_iff`, `Lowers.trimBoth`).
-/

namespace SlotQuery.Text

variable {c d : Char} {cs ds : List Char}

/-! ## Runs -/

/-- Every run moves characters to characters. -/
theorem runs_valid : ∀ r ∈ lowerRuns ++ foldRuns, 0 ≤ r.first + r.shift ∧ r.last + r.shift < 0xD800 ∨
    0xDFFF < r.first + r.shift ∧ r.last + r.shift < 0x110000 := by
  decide +kernel

/-- A character that is mapped lies in a run and is shifted by it. -/
theorem exists_run_of_imageIn? {runs : List CaseRun} {n m : Nat} (hruns : runs ⊆ lowerRuns ++ foldRuns)
    (h : imageIn? runs n = some m) :
    ∃ r ∈ runs, r.first ≤ n ∧ n ≤ r.last ∧ ((Char.ofNat m).toNat : Int) = n + r.shift := by
  obtain ⟨r, hr, himage⟩ := List.exists_of_findSome?_eq_some h
  unfold CaseRun.image? at himage
  split at himage
  · next hholds =>
    cases himage
    simp only [CaseRun.holds, Bool.and_eq_true, decide_eq_true_eq] at hholds
    obtain ⟨⟨hfirst, hlast⟩, -⟩ := hholds
    have hvalid := runs_valid r (hruns hr)
    have hchar : ((n + r.shift).toNat).isValidChar := by
      unfold Nat.isValidChar
      omega
    refine ⟨r, hr, hfirst, hlast, ?_⟩
    rw [Char.ofNat, dif_pos hchar]
    change ((n + r.shift).toNat : Int) = n + r.shift
    omega
  · cases himage

/-- Among the characters of ASCII only capitals change. -/
theorem toLower_cases (c : Char) : c.toLower = c ∨
    'A'.toNat ≤ c.toNat ∧ c.toNat ≤ 'Z'.toNat ∧ c.toLower.toNat = c.toNat + 32 := by
  unfold Char.toLower
  split
  · next hupper =>
    have hfirst : 65 ≤ c.val.toNat := UInt32.le_iff_toNat_le.1 hupper.1
    have hlast : c.val.toNat ≤ 90 := UInt32.le_iff_toNat_le.1 hupper.2
    have hshift : ('a'.val - 'A'.val).toNat = 32 := rfl
    refine .inr ⟨hfirst, hlast, ?_⟩
    rw [Char.toNat_mk, UInt32.toNat_add, hshift]
    exact Nat.mod_eq_of_lt (by omega)
  · exact .inl rfl

/-! ## White space -/

/-- The code points of white space, as closed ranges. -/
def blankRanges : List (Nat × Nat) :=
  [(0x20, 0x20), (0x09, 0x0D), (0x85, 0x85), (0xA0, 0xA0), (0x1680, 0x1680), (0x2000, 0x200A),
    (0x2028, 0x2029), (0x202F, 0x202F), (0x205F, 0x205F), (0x3000, 0x3000)]

/-- White space by its code points. -/
theorem isBlank_iff :
    isBlank c = true ↔ ∃ range ∈ blankRanges, range.1 ≤ c.toNat ∧ c.toNat ≤ range.2 := by
  simp [isBlank, blankRanges]
  omega

/-- Every run lies apart from every range of white space, and so does what it is moved to. -/
theorem runs_apart : ∀ r ∈ lowerRuns ++ foldRuns, ∀ range ∈ blankRanges,
    (r.last < range.1 ∨ range.2 < r.first) ∧
      (r.last + r.shift < range.1 ∨ (range.2 : Int) < r.first + r.shift) := by
  decide +kernel

/-- What the tables change is no white space, and becomes none. -/
theorem isBlank_of_imageIn? {runs : List CaseRun} {m : Nat} (hruns : runs ⊆ lowerRuns ++ foldRuns)
    (h : imageIn? runs c.toNat = some m) : isBlank c = false ∧ isBlank (Char.ofNat m) = false := by
  obtain ⟨r, hr, hfirst, hlast, hm⟩ := exists_run_of_imageIn? hruns h
  constructor
  · rw [← Bool.not_eq_true, isBlank_iff]
    rintro ⟨range, hrange, hlow, hhigh⟩
    obtain ⟨hapart, -⟩ := runs_apart r (hruns hr) range hrange
    omega
  · rw [← Bool.not_eq_true, isBlank_iff]
    rintro ⟨range, hrange, hlow, hhigh⟩
    obtain ⟨-, hapart⟩ := runs_apart r (hruns hr) range hrange
    omega

theorem isBlank_toLower (c : Char) : isBlank c.toLower = isBlank c := by
  rcases toLower_cases c with heq | ⟨hfirst, hlast, hlower⟩
  · rw [heq]
  · have hbounds : 'A'.toNat = 65 ∧ 'Z'.toNat = 90 := ⟨rfl, rfl⟩
    rw [Bool.eq_iff_iff, isBlank_iff, isBlank_iff, hlower]
    simp [blankRanges]
    omega

/-- No mapping of single characters makes or takes white space. -/
theorem isBlank_lowerSimple (c : Char) : isBlank (lowerSimple c) = isBlank c := by
  unfold lowerSimple
  split
  · exact isBlank_toLower c
  · cases himage : imageIn? lowerRuns c.toNat with
    | none => rfl
    | some m =>
      obtain ⟨hc, hm⟩ := isBlank_of_imageIn? (List.subset_append_left _ _) himage
      rw [hc]
      exact hm

/-- Folding neither changes white space nor makes any. -/
theorem isBlank_fold (c : Char) : isBlank (fold c) = isBlank c := by
  unfold fold
  split
  · exact isBlank_toLower c
  · cases himage : imageIn? foldRuns c.toNat with
    | none => exact isBlank_lowerSimple c
    | some m =>
      obtain ⟨hc, hm⟩ := isBlank_of_imageIn? (List.subset_append_right _ _) himage
      rw [hc]
      exact hm

/-! ## Lower-case forms -/

/-- Runs that hold a character beyond ASCII move it beyond `f`. -/
theorem runs_beyond : ∀ r ∈ lowerRuns, r.last < 0x80 ∨ ('f'.toNat : Int) < r.first + r.shift := by
  decide +kernel

/-- The lower-case forms up to `f` are those of ASCII characters. -/
theorem lt_lowerSimple (hc : 0x80 ≤ c.toNat) : 'f'.toNat < (lowerSimple c).toNat := by
  have hf : 'f'.toNat = 102 := rfl
  rw [lowerSimple, if_neg (Nat.not_lt.2 hc)]
  cases himage : imageIn? lowerRuns c.toNat with
  | none =>
    rw [Option.elim_none]
    omega
  | some m =>
    obtain ⟨r, hr, hfirst, hlast, hm⟩ :=
      exists_run_of_imageIn? (List.subset_append_left _ _) himage
    rw [Option.elim_some]
    rcases runs_beyond r hr with hascii | hbeyond <;> omega

theorem lowerSimple_of_isBlank (hc : isBlank c = true) : lowerSimple c = c := by
  unfold lowerSimple
  split
  · rcases toLower_cases c with heq | ⟨hfirst, hlast, -⟩
    · exact heq
    · have hbounds : 'A'.toNat = 65 ∧ 'Z'.toNat = 90 := ⟨rfl, rfl⟩
      rw [isBlank_iff] at hc
      simp [blankRanges] at hc
      omega
  · cases himage : imageIn? lowerRuns c.toNat with
    | none => rfl
    | some m =>
      obtain ⟨hnot, -⟩ := isBlank_of_imageIn? (List.subset_append_left _ _) himage
      rw [hc] at hnot
      cases hnot

/-- The lower-case forms of a character, told apart by what is asked of them here: those up to `f` come
from ASCII, and white space is its own form and no other's. -/
inductive LowersTo (c : Char) : List Char → Prop where
  | ascii : c.toNat < 0x80 → LowersTo c [c.toLower]
  | blank : isBlank c = true → LowersTo c [c]
  | beyond {ds : List Char} : 0x80 ≤ c.toNat → isBlank c = false → ds ≠ [] →
      (∀ d ∈ ds, 'f'.toNat < d.toNat ∧ isBlank d = false) → LowersTo c ds

theorem lowersTo_lowerSimple (c : Char) : LowersTo c [lowerSimple c] := by
  by_cases hascii : c.toNat < 0x80
  · rw [lowerSimple, if_pos hascii]
    exact .ascii hascii
  · cases hblank : isBlank c with
    | true =>
      rw [lowerSimple_of_isBlank hblank]
      exact .blank hblank
    | false =>
      have hbeyond := Nat.not_lt.1 hascii
      refine .beyond hbeyond hblank (List.cons_ne_nil _ _) (List.forall_mem_singleton.2 ⟨?_, ?_⟩)
      · exact lt_lowerSimple hbeyond
      · rw [isBlank_lowerSimple, hblank]

/-- The form of a character on its own is one it can have in a text. -/
theorem lowersTo_lowerChar (c : Char) : LowersTo c (lowerChar c) := by
  unfold lowerChar
  split
  · next hdot =>
    subst hdot
    exact .beyond (by decide) (by decide) (List.cons_ne_nil _ _)
      (List.all_iff_forall_prop.1 (by decide))
  · exact lowersTo_lowerSimple c

/-- What precedes the small letters is a lower-case form of nothing else. -/
theorem LowersTo.eq_of_mem (h : LowersTo c ds) (hd : d.toNat < 'a'.toNat) (hmem : d ∈ ds) : d = c := by
  have hletters : 'A'.toNat = 65 ∧ 'a'.toNat = 97 ∧ 'f'.toNat = 102 := ⟨rfl, rfl, rfl⟩
  cases h with
  | ascii =>
    obtain rfl := List.mem_singleton.1 hmem
    rcases toLower_cases c with heq | ⟨hfirst, -, hlower⟩
    · exact heq
    · omega
  | blank => exact List.mem_singleton.1 hmem
  | beyond _ _ _ hds =>
    obtain ⟨hbeyond, -⟩ := hds d hmem
    omega

/-- The second text is a lower-case form of the first one, character by character. -/
inductive Lowers : List Char → List Char → Prop where
  | nil : Lowers [] []
  | cons {c : Char} {block cs ds : List Char} :
      LowersTo c block → Lowers cs ds → Lowers (c :: cs) (block ++ ds)

/-- Each character has one of its forms, whatever surrounds it. -/
theorem lowers_lowerFrom (before cs : List Char) : Lowers cs (lowerFrom before cs) := by
  induction cs generalizing before with
  | nil => exact .nil
  | cons c cs ih =>
    refine .cons ?_ (ih (c :: before))
    split
    · next hsigma =>
      subst hsigma
      refine .beyond (by decide) (by decide) (List.cons_ne_nil _ _) ?_
      split <;> exact List.all_iff_forall_prop.1 (by decide)
    · exact lowersTo_lowerChar c

theorem lowers_lowerChars (cs : List Char) : Lowers cs (lowerChars cs) := lowers_lowerFrom [] cs

theorem Lowers.mem_of_mem (h : Lowers cs ds) (hd : d.toNat < 'a'.toNat) (hmem : d ∈ ds) : d ∈ cs := by
  induction h with
  | nil => exact hmem
  | cons hblock h ih =>
    rcases List.mem_append.1 hmem with hmem | hmem
    · exact hblock.eq_of_mem hd hmem ▸ List.mem_cons_self
    · exact List.mem_cons_of_mem _ (ih hmem)

/-- Forms of a text in two parts are forms of the parts. -/
theorem lowers_append_iff {xs ys : List Char} :
    Lowers (xs ++ ys) ds ↔ ∃ us vs, ds = us ++ vs ∧ Lowers xs us ∧ Lowers ys vs := by
  induction xs generalizing ds with
  | nil =>
    constructor
    · intro h
      exact ⟨[], ds, rfl, .nil, h⟩
    · rintro ⟨us, vs, rfl, hus, hvs⟩
      cases hus
      exact hvs
  | cons c xs ih =>
    constructor
    · intro h
      cases h with
      | @cons _ block _ ds hblock h =>
        obtain ⟨us, vs, rfl, hus, hvs⟩ := ih.1 h
        exact ⟨block ++ us, vs, by rw [List.append_assoc], .cons hblock hus, hvs⟩
    · rintro ⟨us, vs, rfl, hus, hvs⟩
      cases hus with
      | @cons _ block _ us hblock hus =>
        rw [List.append_assoc]
        exact .cons hblock (ih.2 ⟨us, vs, rfl, hus, hvs⟩)

theorem lowers_singleton_iff : Lowers [c] ds ↔ LowersTo c ds := by
  constructor
  · intro h
    cases h with
    | cons hblock h =>
      cases h
      rwa [List.append_nil]
  · intro h
    simpa using Lowers.cons h .nil

/-! ## White space at the ends -/

/-- White space is its own lower-case form. -/
theorem LowersTo.eq_of_isBlank (h : LowersTo c ds) (hc : isBlank c = true) : ds = [c] := by
  cases h with
  | ascii hascii =>
    have hsimple := lowerSimple_of_isBlank hc
    rw [lowerSimple, if_pos hascii] at hsimple
    rw [hsimple]
  | blank => rfl
  | beyond _ hnot =>
    rw [hc] at hnot
    cases hnot

theorem LowersTo.isBlank_eq_false (h : LowersTo c ds) (hc : isBlank c = false) :
    ∀ d ∈ ds, isBlank d = false := by
  cases h with
  | ascii =>
    intro d hd
    rw [List.mem_singleton.1 hd, isBlank_toLower, hc]
  | blank hblank =>
    rw [hc] at hblank
    cases hblank
  | beyond _ _ _ hds => exact fun d hd => (hds d hd).2

theorem LowersTo.ne_nil (h : LowersTo c ds) : ds ≠ [] := by
  cases h with
  | ascii | blank => exact List.cons_ne_nil _ _
  | beyond _ _ hne => exact hne

theorem Lowers.trimLeft (h : Lowers cs ds) : Lowers (trimLeft cs) (trimLeft ds) := by
  induction h with
  | nil => exact .nil
  | @cons c block cs ds hblock h ih =>
    cases hc : isBlank c with
    | true =>
      obtain rfl := hblock.eq_of_isBlank hc
      have hws : ∀ d ∈ [c], isBlank d = true := List.forall_mem_singleton.2 hc
      rw [trimLeft_append hws, ← List.singleton_append, trimLeft_append hws]
      exact ih
    | false =>
      obtain ⟨d, block, rfl⟩ := List.exists_cons_of_ne_nil hblock.ne_nil
      have hd := hblock.isBlank_eq_false hc d List.mem_cons_self
      rw [trimLeft_of_not_isBlank hc, List.cons_append, trimLeft_of_not_isBlank hd,
        ← List.cons_append]
      exact .cons hblock h

theorem Lowers.trimRight (h : Lowers cs ds) : Lowers (trimRight cs) (trimRight ds) := by
  induction cs using List.reverseRecOn generalizing ds with
  | nil =>
    cases h
    exact .nil
  | append_singleton cs c ih =>
    obtain ⟨us, block, rfl, hus, hblock⟩ := lowers_append_iff.1 h
    have hblock := lowers_singleton_iff.1 hblock
    cases hc : isBlank c with
    | true =>
      obtain rfl := hblock.eq_of_isBlank hc
      have hws : ∀ d ∈ [c], isBlank d = true := List.forall_mem_singleton.2 hc
      rw [trimRight_append hws, trimRight_append hws]
      exact ih hus
    | false =>
      have hlast : ∀ d ∈ (us ++ block).getLast?, isBlank d = false := by
        intro d hd
        rw [List.getLast?_append, List.getLast?_eq_some_getLast hblock.ne_nil, Option.some_or] at hd
        obtain rfl := Option.some.inj hd
        exact hblock.isBlank_eq_false hc _ (List.getLast_mem hblock.ne_nil)
      rw [trimRight_append_of_not_isBlank cs hc, trimRight_eq_self hlast]
      exact h

/-- Trimming and lower-case forms do not interfere. -/
theorem Lowers.trimBoth (h : Lowers cs ds) : Lowers (trimBoth cs) (trimBoth ds) :=
  h.trimLeft.trimRight

end SlotQuery.Text
